import Mathlib.Data.List.Nodup
import Pipewright.Proofs.DataType.Classes
import Pipewright.Proofs.DataType.Layers
import Pipewright.Proofs.Keyed

/-! # Paths to nodes
The paths at which a type has nodes are found by walking through packs within packs, and the type at
a path by cutting a dotted text and looking up one field after another. As long as the names of
fields differ, are not empty and hold no dot, the two agree: the paths of nodes are, each once, those
whose dotted text leads to the type of a node. -/

namespace Pipewright

/-! ## Dotted texts -/

namespace Text

variable {separator : Char} {segment cs : List Char}

/-- A segment holds no separator. -/
theorem not_mem_of_mem_segments (m : segment ∈ segments separator cs) : separator ∉ segment := by
  induction cs generalizing segment with
  | nil =>
    rw [List.mem_singleton.1 m]
    exact List.not_mem_nil
  | cons c cs ih =>
    unfold segments at m
    split at m
    · rcases List.mem_cons.1 m with rfl | m
      · exact List.not_mem_nil
      · exact ih m
    · next other =>
      split at m
      · next none => exact absurd none (segments_ne_nil separator cs)
      · next first others e =>
        rcases List.mem_cons.1 m with rfl | m
        · rw [List.mem_cons, not_or]
          exact ⟨Ne.symm other, ih (e ▸ List.mem_cons_self)⟩
        · exact ih (e ▸ List.mem_cons_of_mem _ m)

/-- The segments of a text, with the separator between each two, are the text. -/
theorem intercalate_segments (separator : Char) (cs : List Char) :
    [separator].intercalate (segments separator cs) = cs := by
  induction cs with
  | nil => rfl
  | cons c cs ih =>
    unfold segments
    split
    · next e =>
      rw [List.intercalate_cons_of_ne_nil (segments_ne_nil separator cs), ih, e]
      rfl
    · split
      · next none => exact absurd none (segments_ne_nil separator cs)
      · next first others e =>
        rw [e] at ih
        rw [← ih]
        -- the character joins the first segment, behind which nothing changes
        cases others with
        | nil => rfl
        | cons next others =>
          rw [List.intercalate_cons_of_ne_nil (List.cons_ne_nil _ _),
            List.intercalate_cons_of_ne_nil (List.cons_ne_nil _ _)]
          rfl

/-- Segments that hold no separator are found again in their text. -/
theorem segments_intercalate {parts : List (List Char)} (h : ∀ part ∈ parts, separator ∉ part)
    (some' : parts ≠ []) : segments separator ([separator].intercalate parts) = parts := by
  induction parts with
  | nil => exact absurd rfl some'
  | cons part parts ih =>
    obtain ⟨first, others⟩ := List.forall_mem_cons.1 h
    cases parts with
    | nil => rw [List.intercalate_singleton, segments_of_not_mem first]
    | cons next parts =>
      have rest := ih others (List.cons_ne_nil _ _)
      rw [List.intercalate_cons_of_ne_nil (List.cons_ne_nil _ _), List.append_assoc,
        List.singleton_append, segments_append_cons first, rest]

end Text

namespace DataType

/-- The text of a path: its names with a dot between each two. -/
def dotted (path : List String) : String := ".".intercalate path

/-- A name without a dot. -/
def Undotted (name : String) : Prop := '.' ∉ name.toList

instance (name : String) : Decidable (Undotted name) :=
  inferInstanceAs (Decidable ('.' ∉ name.toList))

/-- The characters of the text of a path. -/
theorem toList_dotted (path : List String) :
    (dotted path).toList = ['.'].intercalate (path.map String.toList) :=
  String.toList_intercalate

/-- The names of a path are found again in its text. -/
theorem splitPath_dotted {path : List String} (names : ∀ name ∈ path, Undotted name)
    (some' : path ≠ []) : splitPath (dotted path) = path := by
  have plain : ∀ part ∈ path.map String.toList, '.' ∉ part := by
    intro part m
    obtain ⟨name, there, rfl⟩ := List.mem_map.1 m
    exact names name there
  have same : String.ofList ∘ String.toList = id := funext fun _ => String.ofList_toList
  rw [splitPath, toList_dotted, Text.segments_intercalate plain (by simpa using some'),
    List.map_map, same, List.map_id]

/-- The names in a dotted text hold no dot. -/
theorem undotted_of_mem_splitPath {text name : String} (m : name ∈ splitPath text) :
    Undotted name := by
  obtain ⟨segment, there, rfl⟩ := List.mem_map.1 m
  unfold Undotted
  rw [String.toList_ofList]
  exact Text.not_mem_of_mem_segments there

/-- There is always a name in a dotted text. -/
theorem splitPath_ne_nil (text : String) : splitPath text ≠ [] := by
  unfold splitPath
  exact fun none => Text.segments_ne_nil _ _ (List.map_eq_nil_iff.1 none)

/-- The names in a dotted text, with dots between them, are the text. -/
theorem dotted_splitPath (text : String) : dotted (splitPath text) = text := by
  have same : String.toList ∘ String.ofList = id := funext fun _ => String.toList_ofList
  apply String.toList_injective
  rw [toList_dotted, splitPath, List.map_map, same, List.map_id]
  exact Text.intercalate_segments '.' text.toList

/-! ## The type at a path -/

/-- The type at a path: the type itself if the path is empty, and else the one to which the text of
the path leads. -/
def at? (t : DataType) : List String → Option DataType
  | [] => some t
  | name :: path => t.fieldPath? (dotted (name :: path))

/-- The type at a path is found by following its names. -/
theorem at?_eq_resolve? (t : DataType) {path : List String}
    (names : ∀ name ∈ path, Undotted name) : t.at? path = t.resolve? path := by
  cases path with
  | nil => rfl
  | cons name path =>
    rw [at?, fieldPath?, splitPath_dotted names (List.cons_ne_nil _ _)]

/-! ## Plain names -/

/-- The names of fields: they differ, are not empty, and hold no dot. -/
structure PlainNames (names : List String) : Prop where
  /-- They differ. -/
  once : names.Nodup
  /-- Each can be a name in a dotted text. -/
  plain : ∀ name ∈ names, name ≠ "" ∧ Undotted name

/-- The names of the fields of every pack in a type, at any depth, are plain. -/
def HasPlainNames (t : DataType) : Prop :=
  ∀ name fields, .pack name fields ∈ t.nested → PlainNames (Keyed.keys fields)

variable {t inner : DataType} {name : String} {path : List String}
  {fields : List (String × DataType)}

/-- What is nested below the outer layers of a type is nested in the type. -/
theorem nested_unannotated_subset (t : DataType) : t.unannotated.nested ⊆ t.nested := by
  fun_induction unannotated t with
  | case1 inner annotations ih => exact fun s m => List.mem_cons_of_mem _ (ih m)
  | case2 t _ => exact List.Subset.refl _

namespace HasPlainNames

/-- The names of the fields of a type that is a pack are plain. -/
theorem names (h : t.HasPlainNames) (pack : t.unannotated = .pack name fields) :
    PlainNames (Keyed.keys fields) := by
  apply h name fields
  apply t.nested_unannotated_subset
  rw [pack]
  exact List.mem_cons_self

/-- What holds of the packs within a pack holds of those within its fields. -/
theorem field (h : t.HasPlainNames) (pack : t.unannotated = .pack name fields) {field : String}
    (m : (field, inner) ∈ fields) : inner.HasPlainNames := by
  intro name' fields' within
  apply h name' fields'
  apply t.nested_unannotated_subset
  rw [pack]
  exact List.mem_cons_of_mem _ (mem_nestedFields_iff.2 ⟨field, inner, m, within⟩)

end HasPlainNames

/-! ## Paths to nodes -/

/-- Below the outer layers there is no layer. -/
theorem unannotated_ne_annotated (t inner : DataType) (annotations : List Annotation) :
    t.unannotated ≠ .annotated inner annotations := by
  fun_induction unannotated t with
  | case1 _ _ ih => exact ih
  | case2 t plain => exact plain inner annotations

/-- What a type is for a walk through packs, whatever its outer layers: a node, a pack, or neither. -/
inductive Walked (t : DataType) : Prop where
  /-- The walk ends at a node. -/
  | node (paths : t.nodePaths = [[]]) (managed : t.isManaged = true)
    (found : ∀ name, t.field? name = none)
  /-- The walk goes on in the fields of a pack. -/
  | pack {name : String} {fields : List (String × DataType)}
    (below : t.unannotated = .pack name fields) (paths : t.nodePaths = nodePathsOfFields fields)
    (managed : t.isManaged = false) (found : ∀ name, t.field? name = Keyed.lookup name fields)
  /-- The walk ends without a node. -/
  | other (paths : t.nodePaths = []) (managed : t.isManaged = false)
    (found : ∀ name, t.field? name = none)

/-- Every type is a node, a pack, or neither. -/
theorem walked (t : DataType) : t.Walked := by
  have paths := t.nodePaths_unannotated
  have managed : t.isManaged = t.unannotated.isManaged := by
    rw [isManaged, isManaged, nodeClass?, nodeClass?, unannotated_unannotated]
  have found := t.field?_unannotated
  cases e : t.unannotated with
  | node c =>
    rw [e] at paths managed found
    exact .node paths.symm managed fun name => (found name).symm
  | pack name fields =>
    rw [e] at paths managed found
    exact .pack e (paths.symm.trans (nodePaths.eq_2 _ _)) managed fun name => (found name).symm
  | annotated inner annotations => exact absurd e (t.unannotated_ne_annotated inner annotations)
  | _ =>
    rw [e] at paths managed found
    exact .other paths.symm managed fun name => (found name).symm

/-- A path at which fields have nodes goes on from one of them. -/
theorem mem_nodePathsOfFields_iff : path ∈ nodePathsOfFields fields ↔
    ∃ field inner, (field, inner) ∈ fields ∧ ∃ rest ∈ inner.nodePaths, path = field :: rest := by
  induction fields with
  | nil => simp [nodePathsOfFields]
  | cons first fields ih =>
    obtain ⟨name, t⟩ := first
    rw [nodePathsOfFields, List.mem_append, ih, List.mem_map]
    constructor
    · rintro (⟨rest, m, rfl⟩ | ⟨field, inner, m, more⟩)
      · exact ⟨name, t, List.mem_cons_self, rest, m, rfl⟩
      · exact ⟨field, inner, List.mem_cons_of_mem _ m, more⟩
    · rintro ⟨field, inner, m, rest, m', rfl⟩
      rcases List.mem_cons.1 m with e | m
      · cases e
        exact .inl ⟨rest, m', rfl⟩
      · exact .inr ⟨field, inner, m, rest, m', rfl⟩

mutual

/-- A type that has a node at a path mentions the class of the node. -/
theorem exists_mentions : (t : DataType) → {path : List String} → path ∈ t.nodePaths →
    ∃ c, t.Mentions c
  | .node c, _, _ => ⟨c, .node c⟩
  | .pack name fields, _, m =>
    have ⟨_, _, there, c, occurs⟩ := exists_mentions_field fields m
    ⟨c, .field name there occurs⟩
  | .annotated inner annotations, _, m =>
    have ⟨c, occurs⟩ := exists_mentions inner m
    ⟨c, .inner annotations occurs⟩

/-- Where fields have a node at a path, one of them mentions the class of the node. -/
theorem exists_mentions_field : (fields : List (String × DataType)) → {path : List String} →
    path ∈ nodePathsOfFields fields → ∃ name t, (name, t) ∈ fields ∧ ∃ c, t.Mentions c
  | (name, t) :: fields, path, m => by
    rw [nodePathsOfFields, List.mem_append, List.mem_map] at m
    rcases m with ⟨rest, m, -⟩ | m
    · exact ⟨name, t, List.mem_cons_self, exists_mentions t m⟩
    · obtain ⟨name', t', there, occurs⟩ := exists_mentions_field fields m
      exact ⟨name', t', List.mem_cons_of_mem _ there, occurs⟩

end

/-- A type that has a node at a path mentions nodes. -/
theorem mentionsNode_of_mem_nodePaths (m : path ∈ t.nodePaths) : t.mentionsNode = true := by
  obtain ⟨c, occurs⟩ := t.exists_mentions m
  unfold mentionsNode
  rw [Bool.not_eq_true', List.isEmpty_eq_false_iff]
  exact List.ne_nil_of_mem (mem_mentionedClasses_iff.2 occurs)

/-- A type has a node at the empty path if it is the type of a node. -/
theorem nil_mem_nodePaths_iff : [] ∈ t.nodePaths ↔ t.isManaged = true := by
  cases t.walked with
  | node paths managed _ => simp [paths, managed]
  | pack _ paths managed _ => simp [paths, managed, mem_nodePathsOfFields_iff]
  | other paths managed _ => simp [paths, managed]

/-- A type has a node at a path that starts with a name if the field of that name has one at the
rest of it. -/
theorem cons_mem_nodePaths_iff (h : t.HasPlainNames) :
    name :: path ∈ t.nodePaths ↔ ∃ inner, t.field? name = some inner ∧ path ∈ inner.nodePaths := by
  cases t.walked with
  | node paths _ found => simp [paths, found]
  | other paths _ found => simp [paths, found]
  | pack below paths _ found =>
    rw [paths, mem_nodePathsOfFields_iff, found]
    constructor
    · rintro ⟨field, inner, m, rest, m', same⟩
      obtain ⟨rfl, rfl⟩ := List.cons.inj same
      -- the first field of the name is the only one
      exact ⟨inner, Keyed.lookup_of_mem_of_nodup (h.names below).once m, m'⟩
    · rintro ⟨inner, there, m⟩
      exact ⟨name, inner, Keyed.mem_of_lookup there, path, m, rfl⟩

/-- What is looked up is a field of a pack, with a plain name, and has plain names in it. -/
theorem HasPlainNames.of_field? (h : t.HasPlainNames) (there : t.field? name = some inner) :
    inner.HasPlainNames ∧ name ≠ "" ∧ Undotted name := by
  cases t.walked with
  | node _ _ found => exact absurd (there.symm.trans (found name)) (Option.some_ne_none _)
  | other _ _ found => exact absurd (there.symm.trans (found name)) (Option.some_ne_none _)
  | pack below _ _ found =>
    have m := Keyed.mem_of_lookup ((found name).symm.trans there)
    exact ⟨h.field below m, (h.names below).plain name (List.mem_map_of_mem m)⟩

/-- A path leads to the type of a node. -/
def LeadsToNode (t : DataType) (path : List String) : Prop :=
  ∃ s, t.resolve? path = some s ∧ s.isManaged = true

/-- A type has nodes at exactly the paths that lead to them. -/
theorem mem_nodePaths_iff (h : t.HasPlainNames) : path ∈ t.nodePaths ↔ t.LeadsToNode path := by
  -- the walk through the type and the look-ups agree on one name after another
  induction path generalizing t with
  | nil =>
    rw [nil_mem_nodePaths_iff]
    simp [LeadsToNode, resolve?]
  | cons name path ih =>
    rw [cons_mem_nodePaths_iff h]
    unfold LeadsToNode
    rw [resolve?]
    cases there : t.field? name with
    | none => simp
    | some inner =>
      have rest := ih (h.of_field? there).1
      unfold LeadsToNode at rest
      simp [rest]

/-- The names on a path at which a type has a node are plain. -/
theorem plain_of_mem_nodePaths (h : t.HasPlainNames) (m : path ∈ t.nodePaths) :
    ∀ name ∈ path, name ≠ "" ∧ Undotted name := by
  induction path generalizing t with
  | nil => simp
  | cons name path ih =>
    obtain ⟨inner, there, m'⟩ := (cons_mem_nodePaths_iff h).1 m
    obtain ⟨within, plain⟩ := h.of_field? there
    exact List.forall_mem_cons.2 ⟨plain, ih within m'⟩

/-! ## Each path once -/

/-- A path at which fields have nodes occurs at most once if it does so in the field from which it
goes on. -/
theorem count_nodePathsOfFields_le (once : (Keyed.keys fields).Nodup)
    (each : ∀ field inner, (field, inner) ∈ fields → inner.nodePaths.count path ≤ 1) :
    (nodePathsOfFields fields).count (name :: path) ≤ 1 := by
  induction fields with
  | nil => simp [nodePathsOfFields]
  | cons first fields ih =>
    obtain ⟨name', t⟩ := first
    have once' : (name' :: Keyed.keys fields).Nodup := once
    obtain ⟨fresh, once''⟩ := List.nodup_cons.1 once'
    rw [nodePathsOfFields, List.count_append]
    by_cases same : name' = name
    · subst same
      -- no other field has the name
      have none : (nodePathsOfFields fields).count (name' :: path) = 0 := by
        rw [List.count_eq_zero]
        intro m
        obtain ⟨field, inner, m', rest, -, e⟩ := mem_nodePathsOfFields_iff.1 m
        obtain ⟨rfl, -⟩ := List.cons.inj e
        exact fresh (List.mem_map_of_mem m')
      have injective : Function.Injective (name' :: · : List String → List String) :=
        List.cons_injective
      rw [none, Nat.add_zero, List.count_map_of_injective _ _ injective]
      exact each name' t List.mem_cons_self
    · have none : ((nodePaths t).map (name' :: ·)).count (name :: path) = 0 := by
        rw [List.count_eq_zero]
        intro m
        obtain ⟨rest, -, e⟩ := List.mem_map.1 m
        exact same (List.cons.inj e).1
      rw [none, Nat.zero_add]
      exact ih once'' fun field inner m => each field inner (List.mem_cons_of_mem _ m)

/-- No path is listed twice. -/
theorem nodup_nodePaths (h : t.HasPlainNames) : t.nodePaths.Nodup := by
  rw [List.nodup_iff_count_le_one]
  intro path
  -- by induction on the path: it goes on in one field only, where its rest is found once
  induction path generalizing t with
  | nil =>
    cases t.walked with
    | node paths _ _ => simp [paths]
    | other paths _ _ => simp [paths]
    | pack below _ managed _ =>
      have absent : [] ∉ t.nodePaths := by
        rw [nil_mem_nodePaths_iff, managed]
        exact Bool.false_ne_true
      rw [List.count_eq_zero.2 absent]
      exact Nat.zero_le 1
  | cons name path ih =>
    cases t.walked with
    | node paths _ _ => simp [paths]
    | other paths _ _ => simp [paths]
    | pack below paths _ _ =>
      rw [paths]
      apply count_nodePathsOfFields_le (h.names below).once
      intro field inner m
      exact ih (h.field below m)

end DataType

end Pipewright
