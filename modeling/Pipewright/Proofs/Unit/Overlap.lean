import Pipewright.Proofs.DataType.Paths
import Pipewright.Proofs.Unit.Cleanup
import Pipewright.Proofs.Unit.Nodes

/-! # Places that overlap
Two places overlap if one of them is found within the other, whatever values there are. Together with
the agreement about the paths of nodes this says what it takes to remove just the nodes that a
pipeline leaves behind: the places that are walked through are those that can be wired, and no two of
them share a node's place. -/

namespace Pipewright

/-! ## Containing -/

namespace Datum

/-- Maps within maps along a path, and a number at its end. -/
def along : List String → Datum
  | [] => .int 0
  | name :: path => .map [(name, along path)]

/-- The number is found at the end of the path only. -/
theorem member_along_iff {path other : List String} :
    (along path).member other = .int 0 ↔ other = path := by
  induction path generalizing other with
  | nil =>
    cases other with
    | nil => simp [along]
    | cons name other => simp [along, member]
  | cons name path ih =>
    cases other with
    | nil => simp [along]
    | cons name' other =>
      rw [along, member, Keyed.lookup_cons]
      by_cases same : name' = name
      · rw [if_pos same, Option.getD_some, ih, same]
        simp
      · rw [if_neg same, Keyed.lookup_nil, Option.getD_none, member_unit]
        simp [same]

end Datum

namespace Access

variable {a b : Access}

/-- A place contains another one: whatever the variables hold, what is found at the other place is
found by following some fields from what is found at the place. -/
def Contains (a b : Access) : Prop :=
  ∃ rest, ∀ s : Entries, b.read s = (a.read s).member rest

/-- A place contains those of the same variable to which its path goes on. -/
theorem contains_iff : a.Contains b ↔ a.base = b.base ∧ a.path <+: b.path := by
  constructor
  · rintro ⟨rest, follows⟩
    -- a variable in which there is nothing but the other place
    have only := follows [(b.base, .along b.path)]
    unfold read at only
    rw [Keyed.lookup_cons, if_pos rfl, Option.getD_some, Datum.member_along_iff.2 rfl,
      Keyed.lookup_cons] at only
    by_cases same : a.base = b.base
    · rw [if_pos same, Option.getD_some, ← Datum.member_append] at only
      exact ⟨same, rest, Datum.member_along_iff.1 only.symm⟩
    · rw [if_neg same, Keyed.lookup_nil, Option.getD_none, Datum.member_unit,
        Datum.member_unit] at only
      cases only
  · rintro ⟨same, rest, e⟩
    refine ⟨rest, fun s => ?_⟩
    unfold read
    rw [← same, ← e, Datum.member_append]

/-- Two places overlap if one of them contains the other. -/
theorem overlaps_iff : a.overlaps b = true ↔ a.Contains b ∨ b.Contains a := by
  rw [contains_iff, contains_iff]
  unfold overlaps
  rw [Bool.and_eq_true, Bool.or_eq_true, beq_iff_eq, List.isPrefixOf_iff_prefix,
    List.isPrefixOf_iff_prefix]
  constructor
  · rintro ⟨same, within | around⟩
    · exact .inl ⟨same, within⟩
    · exact .inr ⟨same.symm, around⟩
  · rintro (⟨same, within⟩ | ⟨same, around⟩)
    · exact ⟨same, .inl within⟩
    · exact ⟨same.symm, .inr around⟩

end Access

/-! ## Places of nodes -/

namespace DataType

variable {t : DataType} {path path' : List String}

/-- No path goes on from a node. -/
theorem LeadsToNode.eq_of_prefix (h : t.LeadsToNode path) (h' : t.LeadsToNode path')
    (within : path <+: path') : path = path' := by
  obtain ⟨rest, rfl⟩ := within
  obtain ⟨s, leads, managed⟩ := h
  obtain ⟨s', leads', -⟩ := h'
  rw [resolve?_append, leads, Option.bind_some] at leads'
  cases rest with
  | nil => rw [List.append_nil]
  | cons name rest =>
    have none : s.field? name = none := by
      cases s.walked with
      | node _ _ found => exact found name
      | pack _ _ plain _ => exact absurd managed (by rw [plain]; exact Bool.false_ne_true)
      | other _ plain _ => exact absurd managed (by rw [plain]; exact Bool.false_ne_true)
    rw [resolve?, none] at leads'
    cases leads'

/-- The paths at which a type has nodes are the node fields that can be named. For a type with plain
names they are listed once each; a path of names is listed if and only if the type at it is that of
a node, and a dotted text leads to the type of a node if and only if it is that of a listed path.
Two places in a variable overlap if and only if one of them contains the other, and so for two listed
paths only if they are the same. -/
theorem nodePaths_agree (t : DataType) (plain : t.HasPlainNames) :
    t.nodePaths.Nodup ∧
    (∀ path, path ∈ t.nodePaths ↔ (∀ name ∈ path, Undotted name) ∧
      ∃ s, t.at? path = some s ∧ s.isManaged = true) ∧
    (∀ text, (∃ s, t.fieldPath? text = some s ∧ s.isManaged = true) ↔
      ∃ path ∈ t.nodePaths, path ≠ [] ∧ dotted path = text) ∧
    ∀ holder path path',
      ((⟨holder, path⟩ : Access).overlaps ⟨holder, path'⟩ = true ↔
        Access.Contains ⟨holder, path⟩ ⟨holder, path'⟩ ∨
          Access.Contains ⟨holder, path'⟩ ⟨holder, path⟩) ∧
      (path ∈ t.nodePaths → path' ∈ t.nodePaths →
        ((⟨holder, path⟩ : Access).overlaps ⟨holder, path'⟩ = true ↔ path = path')) := by
  refine ⟨nodup_nodePaths plain, fun path => ?_, fun text => ?_, fun holder path path' =>
    ⟨Access.overlaps_iff, fun m m' => ?_⟩⟩
  · constructor
    · intro m
      have names : ∀ name ∈ path, Undotted name := fun name within =>
        (plain_of_mem_nodePaths plain m name within).2
      refine ⟨names, ?_⟩
      rw [at?_eq_resolve? t names]
      exact (mem_nodePaths_iff plain).1 m
    · rintro ⟨names, leads⟩
      rw [at?_eq_resolve? t names] at leads
      exact (mem_nodePaths_iff plain).2 leads
  · constructor
    · intro leads
      exact ⟨splitPath text, (mem_nodePaths_iff plain).2 leads, splitPath_ne_nil text,
        dotted_splitPath text⟩
    · rintro ⟨path, m, some', rfl⟩
      have names : ∀ name ∈ path, Undotted name := fun name within =>
        (plain_of_mem_nodePaths plain m name within).2
      rw [fieldPath?, splitPath_dotted names some']
      exact (mem_nodePaths_iff plain).1 m
  · have leads := (mem_nodePaths_iff plain).1 m
    have leads' := (mem_nodePaths_iff plain).1 m'
    rw [Access.overlaps_iff, Access.contains_iff, Access.contains_iff]
    constructor
    · rintro (⟨-, within⟩ | ⟨-, around⟩)
      · exact leads.eq_of_prefix leads' within
      · exact (leads'.eq_of_prefix leads around).symm
    · intro same
      exact .inl ⟨rfl, same ▸ List.prefix_rfl⟩

/-- A pack with an annotated node, a pack with another node in it, and a number. -/
def parts : DataType :=
  .pack "Parts" [("mesh", .annotated (.node ⟨"Model", []⟩) []),
    ("rest", .pack "Rest" [("cage", .node ⟨"Model", []⟩), ("count", .int)]), ("size", .int)]

/-- The pack has nodes at `mesh` and at `rest.cage` and nowhere else. -/
theorem nodePaths_agree_parts :
    parts.HasPlainNames ∧ parts.nodePaths.Nodup ∧
      (["rest", "cage"] ∈ parts.nodePaths ↔ (∀ name ∈ ["rest", "cage"], Undotted name) ∧
        ∃ s, parts.at? ["rest", "cage"] = some s ∧ s.isManaged = true) ∧
      ((⟨"out", ["mesh"]⟩ : Access).overlaps ⟨"out", ["rest", "cage"]⟩ = true ↔
        ["mesh"] = ["rest", "cage"]) := by
  have plain : parts.HasPlainNames := by
    intro name fields m
    simp only [parts, nested, nestedFields, List.mem_cons, List.append_nil, List.mem_append,
      List.not_mem_nil, or_false, pack.injEq, reduceCtorEq, false_or] at m
    rcases m with ⟨-, rfl⟩ | ⟨-, rfl⟩
    · exact ⟨by decide, by decide +kernel⟩
    · exact ⟨by decide, by decide +kernel⟩
  have agree := nodePaths_agree parts plain
  exact ⟨plain, agree.1, agree.2.1 _,
    (agree.2.2.2 "out" ["mesh"] ["rest", "cage"]).2 (by decide +kernel) (by decide +kernel)⟩

end DataType

end Pipewright
