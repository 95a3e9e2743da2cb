import Mathlib.Data.List.Nodup
import Pipewright.Proofs.DataType.Classes
import Pipewright.Registry

/-! # The classes of a registry
Classes are collected lineage by lineage, each class once. A class that is there already is skipped,
and the walk up its lineage goes on, so that no ancestor is missed. What is collected in the end are
the classes that occur in the types of operations, and everything that these descend from. -/

namespace Pipewright

/-- A class occurs in the type of a parameter or of the return value. -/
def Operation.Mentions (o : Operation) (c : NodeClass) : Prop :=
  (∃ p ∈ o.parameters, p.2.Mentions c) ∨ o.returns.Mentions c

namespace Registry

variable {r : Registry} {found classes : List NodeClass} {a c : NodeClass}

/-! ## Lineages -/

/-- Classes that are added one after another are there in the end, and nothing else is new. -/
theorem mem_foldl_add_iff : a ∈ classes.foldl
    (fun found c => if found.contains c then found else found ++ [c]) found ↔
      a ∈ found ∨ a ∈ classes := by
  induction classes generalizing found with
  | nil => simp
  | cons c classes ih =>
    rw [List.foldl_cons, ih]
    split
    · next there =>
      have there : c ∈ found := by simpa using there
      constructor
      · rintro (m | m)
        · exact .inl m
        · exact .inr (List.mem_cons_of_mem _ m)
      · rintro (m | m)
        · exact .inl m
        · rcases List.mem_cons.1 m with rfl | m
          · exact .inl there
          · exact .inr m
    · rw [List.mem_append, List.mem_singleton, List.mem_cons, or_assoc]

/-- Classes that are added one after another are there once. -/
theorem nodup_foldl_add (once : found.Nodup) : (classes.foldl
    (fun found c => if found.contains c then found else found ++ [c]) found).Nodup := by
  induction classes generalizing found with
  | nil => exact once
  | cons c classes ih =>
    rw [List.foldl_cons]
    split
    · exact ih once
    · next new =>
      have fresh : c ∉ found := by simpa using new
      refine ih (List.nodup_append.2 ⟨once, List.nodup_singleton c, ?_⟩)
      rintro a m b m' rfl
      exact fresh (List.mem_singleton.1 m' ▸ m)

/-- When lineages are added one after another, each class of one of them is there in the end, and
nothing else is new. -/
theorem mem_foldl_addLineage_iff :
    a ∈ classes.foldl addLineage found ↔ a ∈ found ∨ ∃ c ∈ classes, c.Descends a := by
  induction classes generalizing found with
  | nil => simp
  | cons c classes ih =>
    rw [List.foldl_cons, ih, addLineage, mem_foldl_add_iff, NodeClass.mem_lineage_iff]
    simp only [List.exists_mem_cons_iff, or_assoc]

/-- When lineages are added one after another, each class is there once. -/
theorem nodup_foldl_addLineage (once : found.Nodup) : (classes.foldl addLineage found).Nodup := by
  induction classes generalizing found with
  | nil => exact once
  | cons c classes ih => exact ih (nodup_foldl_add once)

/-! ## The classes of all operations -/

/-- The types of a registry are those of the parameters and return values of its operations. -/
theorem exists_types_iff {p : DataType → Prop} : (∃ t ∈ r.types, p t) ↔
    ∃ entry ∈ r.operations, (∃ q ∈ entry.2.parameters, p q.2) ∨ p entry.2.returns := by
  unfold types
  simp only [List.mem_flatMap, List.mem_append, List.mem_map, List.mem_singleton]
  constructor
  · rintro ⟨t, ⟨entry, m, ⟨q, m', rfl⟩ | rfl⟩, holds⟩
    · exact ⟨entry, m, .inl ⟨q, m', holds⟩⟩
    · exact ⟨entry, m, .inr holds⟩
  · rintro ⟨entry, m, ⟨q, m', holds⟩ | holds⟩
    · exact ⟨q.2, ⟨entry, m, .inl ⟨q, m', rfl⟩⟩, holds⟩
    · exact ⟨entry.2.returns, ⟨entry, m, .inr rfl⟩, holds⟩

/-- The classes of a registry are those from which a class descends that occurs in an operation. -/
theorem mem_nodeClasses_iff : a ∈ r.nodeClasses ↔
    ∃ entry ∈ r.operations, ∃ c, entry.2.Mentions c ∧ c.Descends a := by
  have occurs : a ∈ r.nodeClasses ↔ ∃ t ∈ r.types, ∃ c, t.Mentions c ∧ c.Descends a := by
    unfold nodeClasses
    rw [mem_foldl_addLineage_iff]
    simp only [List.not_mem_nil, false_or, List.mem_flatMap, DataType.mem_mentionedClasses_iff]
    constructor
    · rintro ⟨c, ⟨t, m, mentions⟩, descends⟩
      exact ⟨t, m, c, mentions, descends⟩
    · rintro ⟨t, m, c, mentions, descends⟩
      exact ⟨c, ⟨t, m, mentions⟩, descends⟩
  rw [occurs, exists_types_iff]
  refine exists_congr fun entry => and_congr_right fun _ => ?_
  unfold Operation.Mentions
  constructor
  · rintro (⟨p, m, c, mentions, descends⟩ | ⟨c, mentions, descends⟩)
    · exact ⟨c, .inl ⟨p, m, mentions⟩, descends⟩
    · exact ⟨c, .inr mentions, descends⟩
  · rintro ⟨c, ⟨p, m, mentions⟩ | mentions, descends⟩
    · exact .inl ⟨p, m, c, mentions, descends⟩
    · exact .inr ⟨c, mentions, descends⟩

/-- No class of a registry is repeated. -/
theorem nodup_nodeClasses (r : Registry) : r.nodeClasses.Nodup :=
  nodup_foldl_addLineage List.nodup_nil

end Registry

end Pipewright
