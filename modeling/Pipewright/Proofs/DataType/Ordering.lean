import Pipewright.Proofs.DataType.Acceptance
import Pipewright.Proofs.DataType.Numeric

/-! # Acceptance is an order
Among types that hold only numbers and mention classes whose names tell their ancestries, acceptance
is a partial order, if types are taken to be the same that are equal below their outer annotations:
every type accepts itself, what is accepted by way of another type is accepted, and two types that
accept each other are equal. -/

namespace Pipewright

/-! ## Classes -/

namespace NodeClass

variable {c other : NodeClass}

/-- The classes of a chain have shorter chains. -/
theorem length_lt_of_mem_chain {a : NodeClass} {ancestors : List String} (m : a ∈ chain ancestors) :
    a.ancestors.length < ancestors.length := by
  induction ancestors with
  | nil => cases m
  | cons first rest ih =>
    rcases List.mem_cons.1 m with rfl | m
    · exact Nat.lt_succ_self _
    · exact Nat.lt_succ_of_lt (ih m)

/-- A class that descends from another one whose name tells its ancestry is that class, or has more
ancestors. -/
theorem eq_or_length_lt_of_descendsFrom
    (agree : ∀ a ∈ c.lineage, a.name = other.name → a = other) (h : c.descendsFrom other = true) :
    c = other ∨ other.ancestors.length < c.ancestors.length := by
  rcases descendsFrom_iff.1 h with same | above
  · exact .inl (agree c c.mem_lineage_self same)
  · obtain ⟨a, there, named, -⟩ := exists_mem_chain above
    obtain rfl := agree a (List.mem_cons_of_mem _ there) named
    exact .inr (length_lt_of_mem_chain there)

/-- Two classes that descend from each other are the same, if their names tell their ancestries. -/
theorem descendsFrom_antisymm (agree : ∀ a ∈ c.lineage, a.name = other.name → a = other)
    (agree' : ∀ a ∈ other.lineage, a.name = c.name → a = c) (h : c.descendsFrom other = true)
    (h' : other.descendsFrom c = true) : c = other := by
  rcases eq_or_length_lt_of_descendsFrom agree h with same | fewer
  · exact same
  · rcases eq_or_length_lt_of_descendsFrom agree' h' with same | fewer'
    · exact same.symm
    · exact absurd fewer (Nat.lt_asymm fewer')

end NodeClass

/-! ## Types -/

namespace DataType

variable {s t : DataType}

/-- Among some types the names of classes tell their ancestries: where a class that is mentioned has
itself or one of its ancestors the name of another class that is mentioned, it is that class, with
the same ancestors of its own. -/
def Coherent (types : Set DataType) : Prop :=
  ∀ s ∈ types, ∀ t ∈ types, ∀ c ∈ s.mentionedClasses, ∀ c' ∈ t.mentionedClasses,
    ∀ a ∈ c.lineage, a.name = c'.name → a = c'

/-- In a coherent set the class of a type of nodes tells the ancestry of every class of its name in
the lineage of another one. -/
theorem Coherent.agree {types : Set DataType} (coherent : Coherent types) (hs : s ∈ types)
    (ht : t ∈ types) (c c' : NodeClass) (below : s.unannotated = .node c)
    (below' : t.unannotated = .node c') : ∀ a ∈ c.lineage, a.name = c'.name → a = c' :=
  coherent s hs t ht c (mem_mentionedClasses below) c' (mem_mentionedClasses below')

/-- A numeric type accepts itself. -/
theorem accepts_self (numeric : t.Numeric) : t.accepts t = true :=
  accepts_iff.2 (.equal (beq_self _ numeric.unannotated))

/-- Two types that accept each other are equal below their outer annotations, if the names of their
classes tell their ancestries. -/
theorem accepts_antisymm
    (agree : ∀ c c', s.unannotated = .node c → t.unannotated = .node c' →
      ∀ a ∈ c.lineage, a.name = c'.name → a = c')
    (agree' : ∀ c c', t.unannotated = .node c → s.unannotated = .node c' →
      ∀ a ∈ c.lineage, a.name = c'.name → a = c')
    (h : t.accepts s = true) (h' : s.accepts t = true) :
    (s.unannotated == t.unannotated) = true := by
  rw [accepts_iff] at h h'
  revert agree agree' h h'
  generalize s.unannotated = s
  generalize t.unannotated = t
  intro agree agree' h h'
  cases h with
  | widened =>
    -- whole numbers do not accept floating-point ones
    cases h' with
    | equal same => cases same
  | @descended c parent above =>
    cases h' with
    | descended above' =>
      rw [NodeClass.descendsFrom_antisymm (agree _ _ rfl rfl) (agree' _ _ rfl rfl) above above']
      exact beq_self_eq_true parent
    | equal same =>
      rw [show parent = c from beq_iff_eq.1 same]
      exact beq_self_eq_true c
  | equal same => exact same

/-- Acceptance is a partial order up to outer annotations on every set of types that hold only
numbers and whose classes' names tell their ancestries: it is reflexive, transitive, and
antisymmetric. -/
theorem accepts_partialOrder {types : Set DataType} (numeric : ∀ t ∈ types, t.Numeric)
    (coherent : Coherent types) :
    (∀ t ∈ types, t.accepts t = true) ∧
      (∀ a ∈ types, ∀ b ∈ types, ∀ c ∈ types, b.accepts a = true → c.accepts b = true →
        c.accepts a = true) ∧
      ∀ a ∈ types, ∀ b ∈ types, b.accepts a = true → a.accepts b = true →
        (a.unannotated == b.unannotated) = true :=
  ⟨fun t m => accepts_self (numeric t m),
    fun _ ha _ hb _ _ first second => accepts_trans (coherent.agree ha hb) second first,
    fun _ ha _ hb first second =>
      accepts_antisymm (coherent.agree ha hb) (coherent.agree hb ha) first second⟩

/-- The class of things that are shown. -/
def shown : NodeClass := .named "Shown"

/-- The class of models, which are shown. -/
def model : NodeClass := .derived "Model" shown

/-- Types of numbers and of nodes of three classes, some of them annotated. -/
def shownTypes : List DataType :=
  [.int, .annotated .float [.minimum (.float 0.5)], .node .root, .annotated (.node shown) [],
    .node model, .annotated (.list (.annotated (.node model) [.default (.float (-0.0))])) [],
    .list (.annotated (.node model) [.default (.float 0.0)])]

/-- Models are accepted where nodes are, by way of what is shown; lists with the two zeros in their
annotations accept each other. -/
theorem accepts_partialOrder_shown :
    let types : Set DataType := {t | t ∈ shownTypes}
    (∀ t ∈ types, t.Numeric) ∧ Coherent types ∧
      (DataType.node .root).accepts (.node model) = true ∧
      (shownTypes[5].unannotated == shownTypes[6].unannotated) = true := by
  intro types
  have numeric : ∀ t ∈ types, t.Numeric := by
    show ∀ t ∈ shownTypes, t.Numeric
    decide +kernel
  have coherent : Coherent types := by
    show ∀ s ∈ shownTypes, ∀ t ∈ shownTypes, ∀ c ∈ s.mentionedClasses, ∀ c' ∈ t.mentionedClasses,
      ∀ a ∈ c.lineage, a.name = c'.name → a = c'
    decide +kernel
  obtain ⟨-, trans, antisymm⟩ := accepts_partialOrder numeric coherent
  have within : ∀ i (h : i < shownTypes.length), shownTypes[i] ∈ types := fun i h =>
    List.getElem_mem h
  exact ⟨numeric, coherent,
    trans _ (within 4 (by decide)) _ (within 3 (by decide)) _ (within 2 (by decide))
      (by decide +kernel) (by decide +kernel),
    antisymm _ (within 5 (by decide)) _ (within 6 (by decide)) (by decide +kernel)
      (by decide +kernel)⟩

end DataType

end Pipewright
