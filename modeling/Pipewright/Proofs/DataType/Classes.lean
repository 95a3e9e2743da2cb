import Mathlib.Logic.Relation
import Pipewright.DataType.Basic

/-! # Classes in types
Which node classes occur in a type, at any depth, and from which classes a class descends. The walk
through a type finds exactly the former, and the lineage of a class is made up of exactly the
latter. -/

namespace Pipewright

/-! ## Ancestry -/

namespace NodeClass

variable {c a : NodeClass}

/-- A class is another one, or descends from it in any number of steps. -/
def Descends : NodeClass → NodeClass → Prop :=
  Relation.ReflTransGen fun c p => c.parent? = some p

/-- A lineage is the class itself, and what its parent descends from. -/
theorem mem_lineage_iff : a ∈ c.lineage ↔ c.Descends a := by
  obtain ⟨name, ancestors⟩ := c
  induction ancestors generalizing name with
  | nil =>
    constructor
    · intro m
      rw [List.mem_singleton.1 m]
      exact .refl
    · intro d
      cases d.cases_head with
      | inl same => exact same ▸ List.mem_cons_self
      | inr step =>
        obtain ⟨p, parent, -⟩ := step
        cases parent
  | cons first rest ih =>
    have next : (⟨name, first :: rest⟩ : NodeClass).lineage =
        ⟨name, first :: rest⟩ :: (⟨first, rest⟩ : NodeClass).lineage := rfl
    rw [next, List.mem_cons, ih first]
    constructor
    · rintro (rfl | d)
      · exact .refl
      · exact .head rfl d
    · intro d
      rcases d.cases_head with same | ⟨p, parent, d⟩
      · exact .inl same.symm
      · cases parent
        exact .inr d

end NodeClass

namespace DataType

/-! ## Occurrence -/

/-- A class occurs in a type. -/
inductive Mentions : DataType → NodeClass → Prop where
  /-- In the type of its nodes. -/
  | node (c : NodeClass) : Mentions (.node c) c
  /-- In the items of a list. -/
  | item {t : DataType} {c : NodeClass} (h : Mentions t c) : Mentions (.list t) c
  /-- In the keys of a dictionary. -/
  | key {t : DataType} {c : NodeClass} (value : DataType) (h : Mentions t c) :
    Mentions (.dict t value) c
  /-- In the values of a dictionary. -/
  | value {t : DataType} {c : NodeClass} (key : DataType) (h : Mentions t c) :
    Mentions (.dict key t) c
  /-- In one of the items of a tuple. -/
  | place {t : DataType} {c : NodeClass} {items : List DataType} (m : t ∈ items)
    (h : Mentions t c) : Mentions (.tuple items) c
  /-- In one of the fields of a pack. -/
  | field {t : DataType} {c : NodeClass} (pack : String) {name : String}
    {fields : List (String × DataType)} (m : (name, t) ∈ fields) (h : Mentions t c) :
    Mentions (.pack pack fields) c
  /-- Below a layer of annotation. -/
  | inner {t : DataType} {c : NodeClass} (annotations : List Annotation) (h : Mentions t c) :
    Mentions (.annotated t annotations) c

variable {s t : DataType} {c : NodeClass}

/-- What is nested in the types of a list is nested in one of them. -/
theorem mem_nestedItems_iff {items : List DataType} :
    s ∈ nestedItems items ↔ ∃ t ∈ items, s ∈ t.nested := by
  induction items with
  | nil => simp [nestedItems]
  | cons item items ih => simp [nestedItems, ih]

/-- What is nested in the fields of a list is nested in the type of one of them. -/
theorem mem_nestedFields_iff {fields : List (String × DataType)} :
    s ∈ nestedFields fields ↔ ∃ name t, (name, t) ∈ fields ∧ s ∈ t.nested := by
  induction fields with
  | nil => simp [nestedFields]
  | cons field fields ih =>
    obtain ⟨name, t⟩ := field
    rw [nestedFields, List.mem_append, ih]
    constructor
    · rintro (m | ⟨name', t', m, m'⟩)
      · exact ⟨name, t, List.mem_cons_self, m⟩
      · exact ⟨name', t', List.mem_cons_of_mem _ m, m'⟩
    · rintro ⟨name', t', m, m'⟩
      rcases List.mem_cons.1 m with e | m
      · cases e
        exact .inl m'
      · exact .inr ⟨name', t', m, m'⟩

/-- If a class occurs in a type, the type of its nodes is nested in it. -/
theorem Mentions.node_mem_nested (h : t.Mentions c) : .node c ∈ t.nested := by
  induction h with
  | node c => exact List.mem_singleton_self _
  | item _ ih => exact List.mem_cons_of_mem _ ih
  | key value _ ih => exact List.mem_cons_of_mem _ (List.mem_append_left _ ih)
  | value key _ ih => exact List.mem_cons_of_mem _ (List.mem_append_right _ ih)
  | place m _ ih => exact List.mem_cons_of_mem _ (mem_nestedItems_iff.2 ⟨_, m, ih⟩)
  | field pack m _ ih => exact List.mem_cons_of_mem _ (mem_nestedFields_iff.2 ⟨_, _, m, ih⟩)
  | inner annotations _ ih => exact List.mem_cons_of_mem _ ih

mutual

/-- If the type of the nodes of a class is nested in a type, the class occurs in it. -/
theorem mentions_of_nested : (t : DataType) → .node c ∈ t.nested → t.Mentions c
  | .unit, m | .int, m | .float, m | .str, m | .bool, m | .progress, m | .external _, m => by
    cases List.mem_singleton.1 m
  | .node c', m => by
    cases List.mem_singleton.1 m
    exact .node c
  | .list item, m => by
    rcases List.mem_cons.1 m with e | m
    · cases e
    · exact .item (mentions_of_nested item m)
  | .dict key value, m => by
    rcases List.mem_cons.1 m with e | m
    · cases e
    · rcases List.mem_append.1 m with m | m
      · exact .key value (mentions_of_nested key m)
      · exact .value key (mentions_of_nested value m)
  | .tuple items, m => by
    rcases List.mem_cons.1 m with e | m
    · cases e
    · obtain ⟨t, there, occurs⟩ := mentions_of_nestedItems items m
      exact .place there occurs
  | .pack name fields, m => by
    rcases List.mem_cons.1 m with e | m
    · cases e
    · obtain ⟨field, t, there, occurs⟩ := mentions_of_nestedFields fields m
      exact .field name there occurs
  | .annotated inner annotations, m => by
    rcases List.mem_cons.1 m with e | m
    · cases e
    · exact .inner annotations (mentions_of_nested inner m)

/-- If the type of the nodes of a class is nested in types, the class occurs in one of them. -/
theorem mentions_of_nestedItems :
    (items : List DataType) → .node c ∈ nestedItems items → ∃ t ∈ items, t.Mentions c
  | [], m => absurd m List.not_mem_nil
  | item :: items, m => by
    rcases List.mem_append.1 m with m | m
    · exact ⟨item, List.mem_cons_self, mentions_of_nested item m⟩
    · obtain ⟨t, there, occurs⟩ := mentions_of_nestedItems items m
      exact ⟨t, List.mem_cons_of_mem _ there, occurs⟩

/-- If the type of the nodes of a class is nested in fields, the class occurs in one of them. -/
theorem mentions_of_nestedFields : (fields : List (String × DataType)) →
    .node c ∈ nestedFields fields → ∃ name t, (name, t) ∈ fields ∧ t.Mentions c
  | [], m => absurd m List.not_mem_nil
  | (name, t) :: fields, m => by
    rcases List.mem_append.1 m with m | m
    · exact ⟨name, t, List.mem_cons_self, mentions_of_nested t m⟩
    · obtain ⟨name', t', there, occurs⟩ := mentions_of_nestedFields fields m
      exact ⟨name', t', List.mem_cons_of_mem _ there, occurs⟩

end

/-- The walk through a type finds the classes that occur in it. -/
theorem mem_mentionedClasses_iff : c ∈ t.mentionedClasses ↔ t.Mentions c := by
  have found : c ∈ t.mentionedClasses ↔ .node c ∈ t.nested := by
    unfold mentionedClasses
    rw [List.mem_filterMap]
    constructor
    · rintro ⟨s, m, e⟩
      split at e
      · cases e
        exact m
      · cases e
    · exact fun m => ⟨_, m, rfl⟩
  rw [found]
  exact ⟨mentions_of_nested t, Mentions.node_mem_nested⟩

end DataType

end Pipewright
