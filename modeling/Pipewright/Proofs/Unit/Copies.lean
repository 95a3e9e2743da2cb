import Pipewright.Proofs.Scene.Sound
import Pipewright.Proofs.Unit.Cleanup
import Pipewright.Proofs.Unit.Nodes
import Pipewright.Unit.Widget

/-! # How results reach the outputs
The parts of what a pipeline returns are copied to the outputs one after another. What is said of
them here is said without a program: which parts there are, what becomes of the outputs and of the
scene, and what the outputs hold in the places of nodes when all parts were copied. -/

namespace Pipewright

/-! ## Fields -/

namespace Datum

/-- A value with another part at a path of fields. Only maps can be changed; the last field may be a
new one. -/
def put? (part : Datum) : List String → Datum → Option Datum
  | [], _ => some part
  | name :: path, .map entries =>
    (put? part path ((Keyed.lookup name entries).getD .unit)).map fun inner =>
      .map (Keyed.insert name inner entries)
  | _ :: _, _ => none

variable {d d' new part : Datum} {path other : List String}

/-- Only maps have parts that can be changed. -/
theorem exists_map_of_put? {name : String} (h : put? new (name :: path) d = some d') :
    ∃ entries inner, d = .map entries ∧ d' = .map (Keyed.insert name inner entries) ∧
      put? new path ((Keyed.lookup name entries).getD .unit) = some inner := by
  cases d with
  | map entries =>
    obtain ⟨inner, changed, rfl⟩ := Option.map_eq_some_iff.1 h
    exact ⟨entries, inner, rfl, rfl, changed⟩
  | _ => cases h

/-- The fields of a map. -/
theorem fields?_map_cons (entries : Entries) (name : String) (path : List String) :
    (Datum.map entries).fields? (name :: path) =
      ((Keyed.lookup name entries).getD .unit).fields? path := rfl

/-- The new part is found at its path. -/
theorem fields?_put?_self (h : put? new path d = some d') : d'.fields? path = some new := by
  induction path generalizing d d' with
  | nil =>
    obtain rfl := Option.some.inj h
    rfl
  | cons name path ih =>
    obtain ⟨entries, inner, rfl, rfl, changed⟩ := exists_map_of_put? h
    rw [fields?_map_cons, Keyed.lookup_insert_self, Option.getD_some]
    exact ih changed

/-- What is found at a path that leads neither to the new part nor into it nor around it stays. -/
theorem fields?_put?_of_apart (h : put? new path d = some d') (within : ¬ path <+: other)
    (around : ¬ other <+: path) : d'.fields? other = d.fields? other := by
  induction path generalizing d d' other with
  | nil => exact absurd List.nil_prefix within
  | cons name path ih =>
    cases other with
    | nil => exact absurd List.nil_prefix around
    | cons name' other =>
      obtain ⟨entries, inner, rfl, rfl, changed⟩ := exists_map_of_put? h
      rw [fields?_map_cons, fields?_map_cons]
      by_cases same : name' = name
      · subst same
        rw [Keyed.lookup_insert_self, Option.getD_some]
        exact ih changed (fun l => within (List.cons_prefix_cons.2 ⟨rfl, l⟩))
          fun l => around (List.cons_prefix_cons.2 ⟨rfl, l⟩)
      · rw [Keyed.lookup_insert_of_ne same]

/-- Around a part that was changed there are maps, before and afterwards. -/
theorem fields?_put?_around {name : String} {rest : List String}
    (h : put? new (other ++ name :: rest) d = some d') :
    (∃ entries, d.fields? other = some (.map entries)) ∧
      ∃ entries, d'.fields? other = some (.map entries) := by
  induction other generalizing d d' with
  | nil =>
    obtain ⟨entries, inner, rfl, rfl, -⟩ := exists_map_of_put? h
    exact ⟨⟨_, rfl⟩, ⟨_, rfl⟩⟩
  | cons name' other ih =>
    obtain ⟨entries, inner, rfl, rfl, changed⟩ := exists_map_of_put? h
    rw [fields?_map_cons, fields?_map_cons, Keyed.lookup_insert_self, Option.getD_some]
    exact ih changed

/-- A path that leads around another one, and to something else, leads to a map. -/
theorem exists_of_prefix_of_ne (l : other <+: path) (ne : path ≠ other) :
    ∃ name rest, path = other ++ name :: rest := by
  obtain ⟨rest, rfl⟩ := l
  cases rest with
  | nil => exact absurd (List.append_nil _) ne
  | cons name rest => exact ⟨name, rest, rfl⟩

/-- What is found elsewhere after a change was found there before, unless there are maps around the
change. -/
theorem fields?_put?_beside (h : put? new path d = some d') (within : ¬ path <+: other) :
    d'.fields? other = d.fields? other ∨ ∃ entries entries', d.fields? other = some (.map entries) ∧
      d'.fields? other = some (.map entries') := by
  by_cases around : other <+: path
  · have ne : path ≠ other := fun e => within (e ▸ List.prefix_rfl)
    obtain ⟨name, rest, rfl⟩ := exists_of_prefix_of_ne around ne
    obtain ⟨⟨entries, before⟩, entries', after⟩ := fields?_put?_around h
    exact .inr ⟨entries, entries', before, after⟩
  · exact .inl (fields?_put?_of_apart h within around)

/-- Fields that are followed one after another. -/
theorem fields?_append (d : Datum) (path rest : List String) :
    d.fields? (path ++ rest) = (d.fields? path).bind fun inner => inner.fields? rest := by
  induction path generalizing d with
  | nil => rfl
  | cons name path ih =>
    rw [List.cons_append, fields?, fields?]
    cases d.field? name with
    | none => rfl
    | some inner => exact ih inner

/-- Within the new part its own fields are found. -/
theorem fields?_put?_within (h : put? new path d = some d') (rest : List String) :
    d'.fields? (path ++ rest) = new.fields? rest := by
  rw [fields?_append, fields?_put?_self h, Option.bind_some]

/-- A node or nothing can be put. -/
theorem IsNodeOrUnit.ne_map (h : d.IsNodeOrUnit) (entries : Entries) : d ≠ .map entries := by
  rcases h with rfl | ⟨handle, rfl⟩ <;> exact fun e => by cases e

mutual

/-- A value that fits a type has something fitting in all places of nodes. -/
theorem Fits.exists_atNode {atNode : Datum → Prop} : (t : DataType) → {d : Datum} →
    Fits atNode t d → ∀ path ∈ t.nodePaths, ∃ part, d.fields? path = some part ∧ atNode part
  | .annotated inner _, _, h => by
    unfold Fits at h
    exact Fits.exists_atNode inner h
  | .node _, d, h => List.forall_mem_singleton.2 ⟨d, rfl, h⟩
  | .pack _ fields, _, h => by
    obtain ⟨entries, rfl, fits⟩ := h
    exact FitsFields.exists_atNode fields fits
  | .unit, _, _ => fun _ m => absurd m List.not_mem_nil
  | .int, _, _ => fun _ m => absurd m List.not_mem_nil
  | .float, _, _ => fun _ m => absurd m List.not_mem_nil
  | .str, _, _ => fun _ m => absurd m List.not_mem_nil
  | .bool, _, _ => fun _ m => absurd m List.not_mem_nil
  | .progress, _, _ => fun _ m => absurd m List.not_mem_nil
  | .list _, _, _ => fun _ m => absurd m List.not_mem_nil
  | .dict _ _, _, _ => fun _ m => absurd m List.not_mem_nil
  | .tuple _, _, _ => fun _ m => absurd m List.not_mem_nil
  | .external _, _, _ => fun _ m => absurd m List.not_mem_nil

/-- So has a map with the fields of a pack. -/
theorem FitsFields.exists_atNode {atNode : Datum → Prop} : (fields : List (String × DataType)) →
    {entries : Entries} → FitsFields atNode fields entries →
    ∀ path ∈ DataType.nodePathsOfFields fields,
      ∃ part, (Datum.map entries).fields? path = some part ∧ atNode part
  | [], _, _ => fun _ m => absurd m List.not_mem_nil
  | (name, t) :: fields, entries, ⟨⟨inner, there, fits⟩, others⟩ => by
    intro path m
    unfold DataType.nodePathsOfFields at m
    rcases List.mem_append.1 m with m | m
    · obtain ⟨rest, leads, rfl⟩ := List.mem_map.1 m
      obtain ⟨part, reached, holds⟩ := Fits.exists_atNode t fits rest leads
      exact ⟨part, (fields?_map there rest).trans reached, holds⟩
    · exact FitsFields.exists_atNode fields others path m

end

end Datum

/-! ## Making copies -/

open Host (Halt)

/-- What copying the content of one value into another comes to: what belongs in the place of the
other one, and the scene. Only nodes have content; nothing is taken for an empty place. -/
def copyNode (scene : Scene Entries) (src dest : Datum) : Except Halt Datum × Scene Entries :=
  match src, dest with
  | .unit, _ => (.ok dest, scene)
  | _, .unit => (.ok src, scene)
  | .node a, .node b =>
    if a.id == b.id then (.ok dest, scene)
    else
      match scene.copyContent a.id b.id with
      | .ok scene => (.ok dest, scene)
      | .error e => (.error (.thrown (.text e.message)), scene)
  | _, _ => (.error .fault, scene)

/-- A value stays in its place, and an empty place takes the other value. -/
theorem eq_of_copyNode {scene scene' : Scene Entries} {src dest part : Datum}
    (h : copyNode scene src dest = (.ok part, scene')) :
    (dest = .unit → part = src) ∧ (dest ≠ .unit → part = dest) := by
  unfold copyNode at h
  split at h
  · cases h
    exact ⟨id, fun _ => rfl⟩
  · cases h
    exact ⟨fun _ => rfl, fun ne => absurd rfl ne⟩
  · refine ⟨Datum.noConfusion, fun _ => ?_⟩
    split at h
    · cases h
      rfl
    · split at h
      · cases h
        rfl
      · cases h
  · cases h

/-- Copying content neither adds nor removes nodes. -/
theorem Scene.contains_copyContent {scene scene' : Scene Entries} {source target : String}
    (h : scene.copyContent source target = .ok scene') (id : String) :
    scene'.contains id = scene.contains id := by
  obtain ⟨_, _, -, -, -, updated⟩ := Scene.copyContent_eq_ok_iff.1 h
  obtain ⟨-, rfl⟩ := Scene.update_eq_ok_iff.1 updated
  rw [Bool.eq_iff_iff, Scene.contains, Scene.contains, Keyed.contains_iff, Keyed.contains_iff,
    Keyed.keys_modify]

section Keeping

/-! What holds of a scene whenever content is copied holds of it whatever the copies come to. -/

variable {P : Scene Entries → Prop} (keeps : ∀ {scene scene' : Scene Entries} {source target : String},
  scene.copyContent source target = .ok scene' → P scene → P scene') {scene : Scene Entries}
  (holds : P scene)

include keeps holds

/-- It is kept when the content of one value is copied into another one. -/
theorem copyNode_keeps (src dest : Datum) : P (copyNode scene src dest).2 := by
  unfold copyNode
  split
  · exact holds
  · exact holds
  · split
    · exact holds
    · split
      · next copied => exact keeps copied holds
      · exact holds
  · exact holds

end Keeping

namespace OutputCopy

variable {c c' : OutputCopy} {copies : List OutputCopy} {result outputs outputs' : Datum}
  {scene scene' : Scene Entries}

/-- What a copy puts in its place, and the scene. -/
def part (c : OutputCopy) (result outputs : Datum) (scene : Scene Entries) :
    Except Halt Datum × Scene Entries :=
  match result.fields? c.source.path, c.isNode with
  | none, _ => (.error .fault, scene)
  | some src, false => (.ok src, scene)
  | some src, true =>
    match outputs.fields? c.target.path with
    | none => (.error .fault, scene)
    | some dest => copyNode scene src dest

/-- The outputs when a copy was made, and the scene. -/
def perform (c : OutputCopy) (result outputs : Datum) (scene : Scene Entries) :
    Except Halt Datum × Scene Entries :=
  match c.part result outputs scene with
  | (.error halt, scene) => (.error halt, scene)
  | (.ok part, scene) =>
    match Datum.put? part c.target.path outputs with
    | none => (.error .fault, scene)
    | some outputs => (.ok outputs, scene)

/-- The outputs when some copies were made one after another, and the scene. The first one that
fails is the end. -/
def performAll (result : Datum) :
    List OutputCopy → Datum → Scene Entries → Except Halt Datum × Scene Entries
  | [], outputs, scene => (.ok outputs, scene)
  | c :: copies, outputs, scene =>
    match c.perform result outputs scene with
    | (.error halt, scene) => (.error halt, scene)
    | (.ok outputs, scene) => performAll result copies outputs scene

/-- The program can catch what a copy fails with. -/
theorem exists_caught_of_part {halt : Halt} (h : (c.part result outputs scene).1 = .error halt) :
    ∃ seen, halt.caught? = some seen := by
  unfold part at h
  split at h
  · cases h
    exact ⟨_, rfl⟩
  · cases h
  · split at h
    · cases h
      exact ⟨_, rfl⟩
    · unfold copyNode at h
      split at h
      · cases h
      · cases h
      · split at h
        · cases h
        · split at h
          · cases h
          · cases h
            exact ⟨_, rfl⟩
      · cases h
        exact ⟨_, rfl⟩

/-- A copy that is made puts what was found in the results in its place; the copy of a node does so
where nothing was, and else leaves what it finds. -/
theorem exists_of_perform (h : (c.perform result outputs scene).1 = .ok outputs') :
    ∃ src part, result.fields? c.source.path = some src ∧
      Datum.put? part c.target.path outputs = some outputs' ∧ (c.isNode = false → part = src) ∧
      (c.isNode = true → ∃ dest, outputs.fields? c.target.path = some dest ∧
        (dest = .unit → part = src) ∧ (dest ≠ .unit → part = dest)) := by
  unfold perform at h
  split at h
  · cases h
  · next part scene' made =>
    split at h
    · cases h
    · next changed =>
      cases h
      unfold OutputCopy.part at made
      split at made
      · cases made
      · next src there whole =>
        cases made
        exact ⟨part, part, there, changed, fun _ => rfl,
          fun node => Bool.noConfusion (whole.symm.trans node)⟩
      · next src there node =>
        split at made
        · cases made
        · next dest reached =>
          exact ⟨src, part, there, changed, fun whole => Bool.noConfusion (node.symm.trans whole),
            fun _ => ⟨dest, reached, eq_of_copyNode made⟩⟩

/-- What holds of the outputs when a copy was made, and stays when others are made, holds when all
are made. Before, something else may hold of them. -/
theorem performAll_reaches {P Q : Datum → Prop} (m : c ∈ copies) (start : P outputs)
    (before : ∀ c' ∈ copies, ∀ o o' scene, P o → (c'.perform result o scene).1 = .ok o' → P o')
    (then' : ∀ o o' scene, P o → (c.perform result o scene).1 = .ok o' → Q o')
    (after : ∀ c' ∈ copies, ∀ o o' scene, Q o → (c'.perform result o scene).1 = .ok o' → Q o')
    (h : (performAll result copies outputs scene).1 = .ok outputs') : Q outputs' := by
  -- what stays when each copy is made stays when all are made
  have stays : ∀ copies' ⊆ copies, ∀ o scene, Q o →
      (performAll result copies' o scene).1 = .ok outputs' → Q outputs' := by
    intro copies' within
    induction copies' with
    | nil =>
      intro o scene reached h
      cases h
      exact reached
    | cons c' copies' ih =>
      intro o scene reached h
      obtain ⟨first, others⟩ := List.cons_subset.1 within
      unfold performAll at h
      split at h
      · cases h
      · next o₁ scene₁ made =>
        exact ih others o₁ scene₁ (after c' first o o₁ scene reached (by rw [made])) h
  induction copies generalizing outputs scene with
  | nil => cases m
  | cons c' copies ih =>
    unfold performAll at h
    split at h
    · cases h
    · next o₁ scene₁ made =>
      rcases List.mem_cons.1 m with rfl | m
      · exact stays copies (List.subset_cons_self _ _) o₁ scene₁
          (then' outputs o₁ scene start (by rw [made])) h
      · exact ih m (before c' List.mem_cons_self outputs o₁ scene start (by rw [made]))
          (fun c' m' => before c' (List.mem_cons_of_mem _ m'))
          (fun c' m' => after c' (List.mem_cons_of_mem _ m'))
          h fun copies' within => stays copies' (List.subset_cons_of_subset _ within)

/-! ## What the outputs hold -/

/-- No part that is copied as it is leads to a place or around it. -/
def Unshadowed (copies : List OutputCopy) (path : List String) : Prop :=
  ∀ c ∈ copies, c.isNode = false → ¬ c.target.path <+: path

/-- What belongs at a place of the outputs, and into it, is found at one place of the results and in
it. -/
def Aligned (copies : List OutputCopy) : Prop :=
  ∀ c ∈ copies, ∀ c' ∈ copies, ∀ rest, c.target.path = c'.target.path ++ rest →
    c.source.path = c'.source.path ++ rest

/-- A node or nothing stays in its place when another copy is made, or gives way to what belongs there.
A node gives way only to a part that is copied as it is. -/
theorem fields?_perform {v : Datum} (aligned : Aligned copies) (m : c ∈ copies) (m' : c' ∈ copies)
    (made : (c'.perform result outputs scene).1 = .ok outputs')
    (there : outputs.fields? c.target.path = some v) (plain : v.IsNodeOrUnit) :
    outputs'.fields? c.target.path = some v ∨
      outputs'.fields? c.target.path = result.fields? c.source.path ∧
        (v = .unit ∨ c'.isNode = false ∧ c'.target.path <+: c.target.path) := by
  obtain ⟨src, part, found, changed, whole, copied⟩ := exists_of_perform made
  by_cases within : c'.target.path <+: c.target.path
  · obtain ⟨rest, e⟩ := within
    -- what belongs in the place is a part of what belongs in the other one
    have belongs : result.fields? c.source.path = src.fields? rest := by
      rw [aligned c m c' m' rest e.symm, Datum.fields?_append, found, Option.bind_some]
    have after : outputs'.fields? c.target.path = part.fields? rest := by
      rw [← e, Datum.fields?_put?_within changed]
    cases kind : c'.isNode with
    | false =>
      refine .inr ⟨?_, .inr ⟨rfl, rest, e⟩⟩
      rw [after, whole kind, belongs]
    | true =>
      obtain ⟨dest, reached, empty, full⟩ := copied kind
      rw [← e, Datum.fields?_append, reached, Option.bind_some] at there
      by_cases none : dest = .unit
      · subst none
        cases rest with
        | nil =>
          refine .inr ⟨?_, .inl (Option.some.inj there).symm⟩
          rw [after, empty rfl, belongs]
        | cons name rest => cases there
      · rw [after, full none]
        exact .inl there
  · rcases Datum.fields?_put?_beside changed within with same | ⟨entries, -, before, -⟩
    · exact .inl (same.trans there)
    · exact absurd (Option.some.inj (there.symm.trans before)) (plain.ne_map entries)

section All

variable (m : c ∈ copies) (node : c.isNode = true)
  (made : (performAll result copies outputs scene).1 = .ok outputs')

include m made in
/-- When all copies were made, an output that held a node still holds it, unless a part was copied to
it or around it as it is. -/
theorem node_stays (aligned : Aligned copies) (unshadowed : Unshadowed copies c.target.path)
    {handle : NodeHandle} (there : outputs.fields? c.target.path = some (.node handle)) :
    outputs'.fields? c.target.path = some (.node handle) := by
  have keeps : ∀ c' ∈ copies, ∀ o o' scene, o.fields? c.target.path = some (.node handle) →
      (c'.perform result o scene).1 = .ok o' → o'.fields? c.target.path = some (.node handle) := by
    intro c' m' o o' scene held made
    rcases fields?_perform aligned m m' made held (.inr ⟨handle, rfl⟩) with
      same | ⟨-, e | ⟨whole, around⟩⟩
    · exact same
    · cases e
    · exact absurd around (unshadowed c' m' whole)
  exact performAll_reaches m there keeps (keeps c m) keeps made

include m node made in
/-- When all copies were made, an output that held nothing holds what belongs there. -/
theorem empty_filled (aligned : Aligned copies) {src : Datum}
    (there : outputs.fields? c.target.path = some .unit)
    (found : result.fields? c.source.path = some src) (plain : src.IsNodeOrUnit) :
    outputs'.fields? c.target.path = some src := by
  -- a copy to this place or around it puts there what is in the source, any other one leaves it
  have moves : ∀ c' ∈ copies, ∀ o o' scene v, o.fields? c.target.path = some v → v.IsNodeOrUnit →
      (c'.perform result o scene).1 = .ok o' →
        o'.fields? c.target.path = some v ∨ o'.fields? c.target.path = some src := by
    intro c' m' o o' scene v held plain made
    rcases fields?_perform aligned m m' made held plain with same | ⟨taken, -⟩
    · exact .inl same
    · exact .inr (taken.trans found)
  have keeps : ∀ c' ∈ copies, ∀ o o' scene, o.fields? c.target.path = some src →
      (c'.perform result o scene).1 = .ok o' → o'.fields? c.target.path = some src :=
    fun c' m' o o' scene held made => (moves c' m' o o' scene src held plain made).elim id id
  -- the place holds nothing until the copy is made, and the node from then on
  refine performAll_reaches
    (P := fun o => o.fields? c.target.path = some .unit ∨ o.fields? c.target.path = some src)
    m (.inl there) ?_ ?_ keeps made
  · rintro c' m' o o' scene (held | held) made
    · exact moves c' m' o o' scene .unit held (.inl rfl) made
    · exact .inr (keeps c' m' o o' scene held made)
  · intro o o' scene held made
    obtain ⟨src', part, found', changed, -, copied⟩ := exists_of_perform made
    obtain ⟨dest, reached, empty, full⟩ := copied node
    cases found.symm.trans found'
    have taken : part = src := by
      by_cases none : dest = .unit
      · exact empty none
      · rcases held with held | held
        · exact absurd (Option.some.inj (reached.symm.trans held)) none
        · rw [full none]
          exact Option.some.inj (reached.symm.trans held)
    rw [Datum.fields?_put?_self changed, taken]

include m made in
/-- When all copies were made, the outputs have the places of all copies. -/
theorem exists_target (aligned : Aligned copies)
    (found : ∃ src, result.fields? c.source.path = some src) :
    ∃ part, outputs'.fields? c.target.path = some part := by
  refine performAll_reaches (P := fun _ => True)
    (Q := fun o => ∃ part, o.fields? c.target.path = some part) m trivial
    (fun _ _ _ _ _ _ _ => trivial)
    (fun o o' scene _ made => ?_) (fun c' m' o o' scene held made => ?_) made
  · obtain ⟨-, part, -, changed, -, -⟩ := exists_of_perform made
    exact ⟨part, Datum.fields?_put?_self changed⟩
  · obtain ⟨old, held⟩ := held
    obtain ⟨src', part, found', changed, whole, copied⟩ := exists_of_perform made
    by_cases within : c'.target.path <+: c.target.path
    · obtain ⟨rest, e⟩ := within
      rw [← e, Datum.fields?_put?_within changed]
      rw [← e, Datum.fields?_append] at held
      cases kind : c'.isNode with
      | false =>
        -- what belongs in the place is a part of what was put around it
        obtain ⟨src, found⟩ := found
        rw [aligned c m c' m' rest e.symm, Datum.fields?_append, found', Option.bind_some] at found
        rw [whole kind]
        exact ⟨src, found⟩
      | true =>
        obtain ⟨dest, reached, empty, full⟩ := copied kind
        rw [reached, Option.bind_some] at held
        by_cases none : dest = .unit
        · subst none
          cases rest with
          | nil => exact ⟨part, rfl⟩
          | cons name rest => cases held
        · rw [full none]
          exact ⟨old, held⟩
    · rcases Datum.fields?_put?_beside changed within with same | ⟨-, entries, -, after⟩
      · exact ⟨old, same.trans held⟩
      · exact ⟨.map entries, after⟩

end All

section Keeping

variable {P : Scene Entries → Prop} (keeps : ∀ {scene scene' : Scene Entries} {source target : String},
  scene.copyContent source target = .ok scene' → P scene → P scene')

include keeps

/-- It is kept when a copy is made. -/
theorem perform_keeps (c : OutputCopy) (result outputs : Datum) (holds : P scene) :
    P (c.perform result outputs scene).2 := by
  have made : P (c.part result outputs scene).2 := by
    unfold part
    split
    · exact holds
    · exact holds
    · split
      · exact holds
      · exact copyNode_keeps keeps holds _ _
  unfold perform
  split
  · next e =>
    rw [e] at made
    exact made
  · next e =>
    rw [e] at made
    split <;> exact made

/-- It is kept when some copies are made. -/
theorem performAll_keeps (result : Datum) (copies : List OutputCopy) (outputs : Datum)
    (holds : P scene) : P (performAll result copies outputs scene).2 := by
  induction copies generalizing outputs scene with
  | nil => exact holds
  | cons c copies ih =>
    have first := perform_keeps keeps c result outputs holds
    unfold performAll
    split
    · next e =>
      rw [e] at first
      exact first
    · next e =>
      rw [e] at first
      exact ih _ first

end Keeping

/-- Making copies neither adds nor removes nodes. -/
theorem contains_performAll (result : Datum) (copies : List OutputCopy) (outputs : Datum)
    (scene : Scene Entries) (id : String) :
    (performAll result copies outputs scene).2.contains id = scene.contains id :=
  performAll_keeps (P := fun after => after.contains id = scene.contains id)
    (fun copied same => (Scene.contains_copyContent copied id).trans same) result copies outputs rfl

/-- Making copies keeps a scene sound. -/
theorem sound_performAll (result : Datum) (copies : List OutputCopy) (outputs : Datum)
    (sound : scene.Sound) : (performAll result copies outputs scene).2.Sound :=
  performAll_keeps (fun copied sound => sound.copyContent copied) result copies outputs sound

/-- The program can catch what copies fail with. -/
theorem exists_caught_of_performAll {halt : Halt}
    (h : (performAll result copies outputs scene).1 = .error halt) :
    ∃ seen, halt.caught? = some seen := by
  induction copies generalizing outputs scene with
  | nil => cases h
  | cons c copies ih =>
    unfold performAll at h
    split at h
    · next failed =>
      cases h
      unfold perform at failed
      split at failed
      · next e =>
        cases failed
        exact exists_caught_of_part (congrArg Prod.fst e)
      · split at failed
        · cases failed
          exact ⟨_, rfl⟩
        · cases failed
    · exact ih h

end OutputCopy

/-! ## The copies of a widget -/

/-- A place within another one. -/
def Access.within (a : Access) (path : List String) : Access := ⟨a.base, a.path ++ path⟩

/-- The whole of a place. -/
@[simp] theorem Access.within_nil (a : Access) : a.within [] = a := by
  rw [within, List.append_nil]

/-- A place within a field. -/
@[simp] theorem Access.within_field (a : Access) (name : String) (path : List String) :
    (a.field name).within path = a.within (name :: path) := by
  rw [within, within, field, List.append_assoc, List.singleton_append]

/-- A copy of the whole of a result. -/
theorem exists_of_mem_whole (source target : Access) (t : DataType)
    (h : outputCopies source target t = [⟨source, target, false⟩]) :
    ∀ c ∈ outputCopies source target t, ∃ path, c.source = source.within path ∧
      c.target = target.within path ∧ (c.isNode = true → path ∈ t.nodePaths) := by
  rw [h]
  exact List.forall_mem_singleton.2
    ⟨[], source.within_nil.symm, target.within_nil.symm, Bool.noConfusion⟩

mutual

/-- The copies for a result lead from places in it to the same places in an output, and those of
nodes to places of nodes. -/
theorem exists_of_mem_outputCopies (source target : Access) : (t : DataType) →
    ∀ c ∈ outputCopies source target t, ∃ path, c.source = source.within path ∧
      c.target = target.within path ∧ (c.isNode = true → path ∈ t.nodePaths)
  | .annotated inner _ => exists_of_mem_outputCopies source target inner
  | .node _ => List.forall_mem_singleton.2
    ⟨[], source.within_nil.symm, target.within_nil.symm, fun _ => List.mem_singleton_self _⟩
  | .pack name fields => by
    unfold outputCopies
    split
    · exact List.forall_mem_singleton.2
        ⟨[], source.within_nil.symm, target.within_nil.symm, Bool.noConfusion⟩
    · exact exists_of_mem_outputCopiesOfFields source target fields
  | .unit => exists_of_mem_whole source target _ rfl
  | .int => exists_of_mem_whole source target _ rfl
  | .float => exists_of_mem_whole source target _ rfl
  | .str => exists_of_mem_whole source target _ rfl
  | .bool => exists_of_mem_whole source target _ rfl
  | .progress => exists_of_mem_whole source target _ rfl
  | .list _ => exists_of_mem_whole source target _ rfl
  | .dict _ _ => exists_of_mem_whole source target _ rfl
  | .tuple _ => exists_of_mem_whole source target _ rfl
  | .external _ => exists_of_mem_whole source target _ rfl

/-- So do the copies for the fields of a pack. -/
theorem exists_of_mem_outputCopiesOfFields (source target : Access) :
    (fields : List (String × DataType)) → ∀ c ∈ outputCopiesOfFields source target fields,
      ∃ path, c.source = source.within path ∧ c.target = target.within path ∧
        (c.isNode = true → path ∈ DataType.nodePathsOfFields fields)
  | [] => fun c m => absurd m List.not_mem_nil
  | (name, t) :: fields => by
    intro c m
    unfold outputCopiesOfFields at m
    unfold DataType.nodePathsOfFields
    rcases List.mem_append.1 m with m | m
    · obtain ⟨path, taken, belongs, place⟩ :=
        exists_of_mem_outputCopies (source.field name) (target.field name) t c m
      rw [Access.within_field] at taken belongs
      exact ⟨name :: path, taken, belongs,
        fun node => List.mem_append_left _ (List.mem_map_of_mem (place node))⟩
    · obtain ⟨path, taken, belongs, place⟩ := exists_of_mem_outputCopiesOfFields source target fields c m
      exact ⟨path, taken, belongs, fun node => List.mem_append_right _ (place node)⟩

end

mutual

/-- There is a copy for every place of a node in a result. -/
theorem mem_outputCopies (source target : Access) : (t : DataType) → ∀ path ∈ t.nodePaths,
    ⟨source.within path, target.within path, true⟩ ∈ outputCopies source target t
  | .annotated inner _ => mem_outputCopies source target inner
  | .node _ => List.forall_mem_singleton.2 (by simp [outputCopies])
  | .pack name fields => by
    intro path m
    unfold outputCopies
    rw [if_neg fun none => by
      rw [List.isEmpty_iff.1 none] at m
      exact List.not_mem_nil m]
    exact mem_outputCopiesOfFields source target fields path m
  | .unit => fun _ m => absurd m List.not_mem_nil
  | .int => fun _ m => absurd m List.not_mem_nil
  | .float => fun _ m => absurd m List.not_mem_nil
  | .str => fun _ m => absurd m List.not_mem_nil
  | .bool => fun _ m => absurd m List.not_mem_nil
  | .progress => fun _ m => absurd m List.not_mem_nil
  | .list _ => fun _ m => absurd m List.not_mem_nil
  | .dict _ _ => fun _ m => absurd m List.not_mem_nil
  | .tuple _ => fun _ m => absurd m List.not_mem_nil
  | .external _ => fun _ m => absurd m List.not_mem_nil

/-- So there is for every place of a node in the fields of a pack. -/
theorem mem_outputCopiesOfFields (source target : Access) : (fields : List (String × DataType)) →
    ∀ path ∈ DataType.nodePathsOfFields fields,
      ⟨source.within path, target.within path, true⟩ ∈ outputCopiesOfFields source target fields
  | [] => fun _ m => absurd m List.not_mem_nil
  | (name, t) :: fields => by
    intro path m
    unfold outputCopiesOfFields
    rcases List.mem_append.1 m with m | m
    · obtain ⟨rest, leads, rfl⟩ := List.mem_map.1 m
      have there := mem_outputCopies (source.field name) (target.field name) t rest leads
      rw [Access.within_field, Access.within_field] at there
      exact List.mem_append_left _ there
    · exact List.mem_append_right _ (mem_outputCopiesOfFields source target fields path m)

end

/-- Some values include a node of an id. -/
def Datum.Includes (ds : List Datum) (id : String) : Prop :=
  ∃ handle, Datum.node handle ∈ ds ∧ handle.id = id

/-- Values that are found at some places, or else nothing, include a node exactly if it is found at one
of the places. -/
theorem Datum.includes_iff {α : Type} {places : List α} {d : Datum} {path : α → List String}
    {id : String} :
    Datum.Includes (places.map fun a => (d.fields? (path a)).getD .unit) id ↔
      ∃ a ∈ places, ∃ handle, d.fields? (path a) = some (.node handle) ∧ handle.id = id := by
  have opened : ∀ {o : Option Datum} {handle}, o.getD .unit = .node handle ↔
      o = some (.node handle) := by
    intro o handle
    cases o <;> simp
  constructor
  · rintro ⟨handle, m, e⟩
    obtain ⟨a, there, found⟩ := List.mem_map.1 m
    exact ⟨a, there, handle, opened.1 found, e⟩
  · rintro ⟨a, there, handle, found, e⟩
    exact ⟨handle, List.mem_map.2 ⟨a, there, opened.2 found⟩, e⟩

namespace OutputCopy

/-- What copies of nodes find in the results. -/
def sources (copies : List OutputCopy) (result : Datum) : List Datum :=
  (copies.filter isNode).map fun c => (result.fields? c.source.path).getD .unit

/-- What is found in the outputs where copies of nodes lead to. -/
def targets (copies : List OutputCopy) (outputs : Datum) : List Datum :=
  (copies.filter isNode).map fun c => (outputs.fields? c.target.path).getD .unit

/-- What a program fails with when a copy fails. Where nodes are copied, it is caught and raised
again. -/
def failure (copies : List OutputCopy) (halt : Halt) : Halt :=
  if (copies.filter isNode).isEmpty then halt else (halt.caught?.map Halt.thrown).getD halt

end OutputCopy

namespace PipelineGraph

variable {g : PipelineGraph} {inputs outputs : List SlotKey} {c : OutputCopy} {d : Datum}
  {id : String}

/-- Where the part of the results is found that belongs to an output. The result of a pipeline with
one output is that part. -/
def sourceAccess (outputs : List SlotKey) (key : SlotKey) : Access :=
  match outputs with
  | [_] => .whole "output_value"
  | _ => slotAccess "output_value" key

/-- The copies for all outputs are those for each of them. -/
theorem allCopies_eq (g : PipelineGraph) (outputs : List SlotKey) :
    allCopies g outputs = outputs.flatMap fun key =>
      outputCopies (sourceAccess outputs key) (slotAccess "outputs" key) (g.slotType key) := by
  rcases outputs with _ | ⟨first, _ | ⟨second, rest⟩⟩ <;> rfl

/-- The copies for all outputs lead from places in the results to the same places in the outputs, and
those of nodes to places of nodes. -/
theorem exists_of_mem_allCopies (m : c ∈ allCopies g outputs) :
    ∃ key ∈ outputs, ∃ path, c.source = (sourceAccess outputs key).within path ∧
      c.target = (slotAccess "outputs" key).within path ∧
      (c.isNode = true → path ∈ (g.slotType key).nodePaths) := by
  rw [allCopies_eq] at m
  obtain ⟨key, there, m⟩ := List.mem_flatMap.1 m
  exact ⟨key, there, exists_of_mem_outputCopies _ _ _ c m⟩

/-- There is a copy for every place of a node in the outputs. -/
theorem mem_allCopies {key : SlotKey} (there : key ∈ outputs) {path : List String}
    (m : path ∈ (g.slotType key).nodePaths) :
    ⟨(sourceAccess outputs key).within path, (slotAccess "outputs" key).within path, true⟩ ∈
      allCopies g outputs := by
  rw [allCopies_eq]
  exact List.mem_flatMap.2 ⟨key, there, mem_outputCopies _ _ _ path m⟩

/-- The places of the outputs are found in the results as they are. -/
theorem aligned_allCopies (g : PipelineGraph) (outputs : List SlotKey) :
    OutputCopy.Aligned (allCopies g outputs) := by
  intro c m c' m' rest e
  obtain ⟨key, there, path, taken, belongs, -⟩ := exists_of_mem_allCopies m
  obtain ⟨key', there', path', taken', belongs', -⟩ := exists_of_mem_allCopies m'
  rw [belongs, belongs'] at e
  obtain ⟨slots, paths⟩ := List.cons.inj e
  rw [taken, taken']
  unfold sourceAccess Access.within Access.whole slotAccess
  split
  · exact paths
  · exact congrArg₂ List.cons slots paths

/-- A value holds a node of an id at the place of a node in one of some slots, which are found at
places of their own. -/
def HasNode (g : PipelineGraph) (keys : List SlotKey) (place : SlotKey → List String) (d : Datum)
    (id : String) : Prop :=
  ∃ key ∈ keys, ∃ path ∈ (g.slotType key).nodePaths, ∃ handle,
    d.fields? (place key ++ path) = some (.node handle) ∧ handle.id = id

/-- What is copied are the nodes in the results. -/
theorem includes_sources_iff :
    Datum.Includes (OutputCopy.sources (allCopies g outputs) d) id ↔
      g.HasNode outputs (fun key => (sourceAccess outputs key).path) d id := by
  rw [OutputCopy.sources, Datum.includes_iff]
  constructor
  · rintro ⟨c, m, handle, found, e⟩
    obtain ⟨m, node⟩ := List.mem_filter.1 m
    obtain ⟨key, there, path, taken, -, place⟩ := exists_of_mem_allCopies m
    rw [taken] at found
    exact ⟨key, there, path, place node, handle, found, e⟩
  · rintro ⟨key, there, path, place, handle, found, e⟩
    exact ⟨_, List.mem_filter.2 ⟨mem_allCopies there place, rfl⟩, handle, found, e⟩

/-- Copies of nodes lead to the nodes in the outputs. -/
theorem includes_targets_iff :
    Datum.Includes (OutputCopy.targets (allCopies g outputs) d) id ↔
      g.HasNode outputs (fun key => [key.slot]) d id := by
  rw [OutputCopy.targets, Datum.includes_iff]
  constructor
  · rintro ⟨c, m, handle, found, e⟩
    obtain ⟨m, node⟩ := List.mem_filter.1 m
    obtain ⟨key, there, path, -, belongs, place⟩ := exists_of_mem_allCopies m
    rw [belongs] at found
    exact ⟨key, there, path, place node, handle, found, e⟩
  · rintro ⟨key, there, path, place, handle, found, e⟩
    exact ⟨_, List.mem_filter.2 ⟨mem_allCopies there place, rfl⟩, handle, found, e⟩

/-- The places among the inputs that are kept are those of nodes. -/
theorem keptAccesses_eq (g : PipelineGraph) (inputs : List SlotKey) :
    keptAccesses g inputs = inputs.flatMap fun key =>
      (g.slotType key).nodePaths.map fun path => ⟨"inputs", key.slot :: path⟩ := by
  unfold keptAccesses slotType
  congr 1
  funext key
  cases g.datatype? key <;> rfl

/-- What is kept are the nodes in the inputs. -/
theorem includes_kept_iff :
    Datum.Includes ((keptAccesses g inputs).map fun a => (d.fields? a.path).getD .unit) id ↔
      g.HasNode inputs (fun key => [key.slot]) d id := by
  rw [Datum.includes_iff, keptAccesses_eq]
  constructor
  · rintro ⟨a, m, handle, found, e⟩
    obtain ⟨key, there, m⟩ := List.mem_flatMap.1 m
    obtain ⟨path, place, rfl⟩ := List.mem_map.1 m
    exact ⟨key, there, path, place, handle, found, e⟩
  · rintro ⟨key, there, path, place, handle, found, e⟩
    exact ⟨_, List.mem_flatMap.2 ⟨key, there, List.mem_map_of_mem place⟩, handle, found, e⟩

end PipelineGraph

end Pipewright
