import Pipewright.Proofs.DataType.Equality

/-! # Acceptance along chains
What a slot accepts it also accepts by way of others: acceptance is transitive if the names of
classes tell their ancestries, and a literal that may stand in a slot may stand in every slot that
accepts that one. -/

namespace Pipewright

/-! ## Classes -/

namespace NodeClass

/-- Among some classes and their ancestors, a name tells the ancestry: classes of one name have the
same one, and an ancestor's own is the rest of the ancestry in which it stands. -/
def Coherent (classes : List NodeClass) : Prop :=
  ∀ c ∈ classes, ∀ c' ∈ classes, ∀ a ∈ c.lineage, ∀ a' ∈ c'.lineage, a.name = a'.name → a = a'

instance (classes : List NodeClass) : Decidable (Coherent classes) :=
  inferInstanceAs (Decidable (∀ c ∈ classes, ∀ c' ∈ classes, ∀ a ∈ c.lineage, ∀ a' ∈ c'.lineage,
    a.name = a'.name → a = a'))

/-- A class is of its own lineage. -/
theorem mem_lineage_self (c : NodeClass) : c ∈ c.lineage := List.mem_cons_self

/-- A name among the ancestors is that of a class of the chain, whose ancestors are among them. -/
theorem exists_mem_chain {name : String} {ancestors : List String} (m : name ∈ ancestors) :
    ∃ a ∈ chain ancestors, a.name = name ∧ a.ancestors ⊆ ancestors := by
  induction ancestors with
  | nil => cases m
  | cons first rest ih =>
    rcases List.mem_cons.1 m with rfl | m
    · exact ⟨⟨name, rest⟩, List.mem_cons_self, rfl, List.subset_cons_self _ _⟩
    · obtain ⟨a, there, named, among⟩ := ih m
      exact ⟨a, List.mem_cons_of_mem _ there, named, fun _ m => List.mem_cons_of_mem _ (among m)⟩

/-- A class descends from another one if one of that name is of its lineage. -/
theorem descendsFrom_iff {c other : NodeClass} :
    c.descendsFrom other = true ↔ c.name = other.name ∨ other.name ∈ c.ancestors := by
  simp [descendsFrom]

/-- Descent goes on through a class whose name tells its ancestry. -/
theorem descendsFrom_trans {c middle other : NodeClass}
    (agree : ∀ a ∈ c.lineage, a.name = middle.name → a = middle)
    (h : c.descendsFrom middle = true) (h' : middle.descendsFrom other = true) :
    c.descendsFrom other = true := by
  rcases descendsFrom_iff.1 h with same | above
  · rw [agree c c.mem_lineage_self same]
    exact h'
  · obtain ⟨a, there, named, among⟩ := exists_mem_chain above
    obtain rfl := agree a (List.mem_cons_of_mem _ there) named
    rcases descendsFrom_iff.1 h' with same | above'
    · exact descendsFrom_iff.2 (.inr (same ▸ above))
    · exact descendsFrom_iff.2 (.inr (among above'))

end NodeClass

/-! ## Types -/

namespace DataType

variable {s t u : DataType}

/-- A type that equals whole numbers is that type. -/
theorem eq_int_of_beq (h : beq s .int = true) : s = .int := by
  cases s <;> first | rfl | cases h

/-- What floating-point numbers equal is that type. -/
theorem eq_float_of_beq (h : beq .float t = true) : t = .float := by
  cases t <;> first | rfl | cases h

/-- A type that equals the nodes of a class is that type. -/
theorem eq_node_of_beq {c : NodeClass} (h : beq s (.node c) = true) : s = .node c := by
  cases s with
  | node c' =>
    rw [beq, beq_iff_eq] at h
    rw [h]
  | _ => cases h

/-- What the nodes of a class equal is that type. -/
theorem eq_node_of_beq' {c : NodeClass} (h : beq (.node c) t = true) : t = .node c := by
  cases t with
  | node c' =>
    rw [beq, beq_iff_eq] at h
    rw [h]
  | _ => cases h

/-- A slot accepts another one's values if they are whole numbers for floating-point ones, nodes of
a class that descends from its own, or of an equal type. -/
inductive Accepted : DataType → DataType → Prop where
  /-- Whole numbers are floating-point numbers. -/
  | widened : Accepted .int .float
  /-- Nodes of a class are nodes of every class it descends from. -/
  | descended {c parent : NodeClass} (h : c.descendsFrom parent = true) :
    Accepted (.node c) (.node parent)
  /-- The types are equal. -/
  | equal {s t : DataType} (h : beq s t = true) : Accepted s t

/-- The test decides acceptance, below the outer annotations. -/
theorem accepts_iff : t.accepts s = true ↔ Accepted s.unannotated t.unannotated := by
  unfold accepts isSubtypeOf
  generalize s.unannotated = s
  generalize t.unannotated = t
  constructor
  · intro h
    rw [Bool.or_eq_true] at h
    rcases h with h | h
    · split at h
      · exact .widened
      · cases h
    · split at h
      · exact .descended h
      · exact .equal h
  · intro h
    cases h with
    | widened => rfl
    | descended h =>
      rw [Bool.or_eq_true]
      exact .inr h
    | equal h =>
      rw [Bool.or_eq_true]
      refine .inr ?_
      split
      · next child parent =>
        rw [beq, beq_iff_eq] at h
        rw [h]
        exact parent.descendsFrom_self
      · exact h

/-- Acceptance goes on through a type whose class's name tells its ancestry. -/
theorem accepts_trans
    (agree : ∀ c middle, s.unannotated = .node c → t.unannotated = .node middle →
      ∀ a ∈ c.lineage, a.name = middle.name → a = middle)
    (h : u.accepts t = true) (h' : t.accepts s = true) : u.accepts s = true := by
  rw [accepts_iff] at h h' ⊢
  revert agree h h'
  generalize s.unannotated = s
  generalize t.unannotated = t
  generalize u.unannotated = u
  intro agree h h'
  -- integers widen and classes descend, so the two never follow each other
  cases h with
  | widened =>
    cases h' with
    | equal same =>
      rw [eq_int_of_beq same]
      exact .widened
  | descended above =>
    cases h' with
    | descended above' =>
      exact .descended (NodeClass.descendsFrom_trans (agree _ _ rfl rfl) above' above)
    | equal same =>
      rw [eq_node_of_beq same]
      exact .descended above
  | equal same =>
    cases h' with
    | widened =>
      rw [eq_float_of_beq same]
      exact .widened
    | descended above =>
      rw [eq_node_of_beq' same]
      exact .descended above
    | equal same' => exact .equal (beq_trans same' same)

/-- A type below outer annotations is nested in the type. -/
theorem unannotated_mem_nested : (t : DataType) → t.unannotated ∈ t.nested
  | .annotated inner _ => List.mem_cons_of_mem _ (unannotated_mem_nested inner)
  | .list _ => List.mem_cons_self
  | .dict _ _ => List.mem_cons_self
  | .tuple _ => List.mem_cons_self
  | .pack _ _ => List.mem_cons_self
  | .unit => List.mem_cons_self
  | .int => List.mem_cons_self
  | .float => List.mem_cons_self
  | .str => List.mem_cons_self
  | .bool => List.mem_cons_self
  | .progress => List.mem_cons_self
  | .node _ => List.mem_cons_self
  | .external _ => List.mem_cons_self

/-- A type of nodes mentions their class. -/
theorem mem_mentionedClasses {c : NodeClass} (h : t.unannotated = .node c) :
    c ∈ t.mentionedClasses :=
  List.mem_filterMap.2 ⟨.node c, h ▸ unannotated_mem_nested t, rfl⟩

end DataType

/-! ## Literals -/

namespace Value

mutual

/-- A literal may stand in slots of equal types. -/
theorem conformsTo_of_beq : (v : Value) → ∀ {s t : DataType}, s.beq t = true →
    v.conformsTo s = true → v.conformsTo t = true
  | .int _, s, t, same, h => by
    have below := DataType.beq_unannotated same
    unfold conformsTo at h ⊢
    cases e : s.unannotated <;> rw [e] at h below <;> try cases h
    all_goals cases e' : t.unannotated <;> rw [e'] at below <;> first | rfl | cases below
  | .float _, s, t, same, h => by
    have below := DataType.beq_unannotated same
    unfold conformsTo at h ⊢
    cases e : s.unannotated <;> rw [e] at h below <;> try cases h
    all_goals cases e' : t.unannotated <;> rw [e'] at below <;> first | rfl | cases below
  | .str _, s, t, same, h => by
    have below := DataType.beq_unannotated same
    unfold conformsTo at h ⊢
    cases e : s.unannotated <;> rw [e] at h below <;> try cases h
    all_goals cases e' : t.unannotated <;> rw [e'] at below <;> first | rfl | cases below
  | .bool _, s, t, same, h => by
    have below := DataType.beq_unannotated same
    unfold conformsTo at h ⊢
    cases e : s.unannotated <;> rw [e] at h below <;> try cases h
    all_goals cases e' : t.unannotated <;> rw [e'] at below <;> first | rfl | cases below
  -- items conform to the types of items, which are the same again
  | .list items, s, t, same, h => by
    have below := DataType.beq_unannotated same
    unfold conformsTo at h ⊢
    cases e : s.unannotated <;> rw [e] at h below <;> try cases h
    cases e' : t.unannotated <;> rw [e'] at below <;> try cases below
    exact allConformTo_of_beq items below h
  | .tuple items, s, t, same, h => by
    have below := DataType.beq_unannotated same
    unfold conformsTo at h ⊢
    cases e : s.unannotated <;> rw [e] at h below <;> try cases h
    cases e' : t.unannotated <;> rw [e'] at below <;> try cases below
    exact conformEach_of_beq items below h
  | .dict pairs, s, t, same, h => by
    have below := DataType.beq_unannotated same
    unfold conformsTo at h ⊢
    cases e : s.unannotated <;> rw [e] at h below <;> try cases h
    cases e' : t.unannotated <;> rw [e'] at below <;> try cases below
    rw [DataType.beq, Bool.and_eq_true] at below
    exact pairsConformTo_of_beq pairs below.1 below.2 h

/-- Literals may stand in slots of equal types. -/
theorem allConformTo_of_beq : (vs : List Value) → ∀ {s t : DataType}, s.beq t = true →
    allConformTo vs s = true → allConformTo vs t = true
  | [], _, _, _, _ => rfl
  | v :: vs, _, _, same, h => by
    rw [allConformTo, Bool.and_eq_true] at h ⊢
    exact ⟨conformsTo_of_beq v same h.1, allConformTo_of_beq vs same h.2⟩

/-- Literals may stand, one by one, in slots of equal types. -/
theorem conformEach_of_beq : (vs : List Value) → ∀ {ss ts : List DataType},
    DataType.beqItems ss ts = true → conformEach vs ss = true → conformEach vs ts = true
  | [], [], [], _, _ => rfl
  | v :: vs, _ :: _, _ :: _, same, h => by
    rw [DataType.beqItems, Bool.and_eq_true] at same
    rw [conformEach, Bool.and_eq_true] at h ⊢
    exact ⟨conformsTo_of_beq v same.1 h.1, conformEach_of_beq vs same.2 h.2⟩

/-- Pairs may stand in slots of equal types. -/
theorem pairsConformTo_of_beq : (pairs : List (Value × Value)) → ∀ {k k' t t' : DataType},
    k.beq k' = true → t.beq t' = true → pairsConformTo pairs k t = true →
      pairsConformTo pairs k' t' = true
  | [], _, _, _, _, _, _, _ => rfl
  | (key, v) :: pairs, _, _, _, _, same, same', h => by
    rw [pairsConformTo, Bool.and_eq_true, Bool.and_eq_true] at h ⊢
    exact ⟨⟨conformsTo_of_beq key same h.1.1, conformsTo_of_beq v same' h.1.2⟩,
      pairsConformTo_of_beq pairs same same' h.2⟩

end

/-- Outer annotations do not matter to a literal. -/
theorem conformsTo_unannotated (v : Value) (t : DataType) :
    v.conformsTo t.unannotated = v.conformsTo t := by
  cases v <;> unfold conformsTo <;> rw [DataType.unannotated_unannotated]

/-- A literal that may stand in a slot may stand in every slot that accepts that one. -/
theorem conformsTo_of_accepts {v : Value} {s t : DataType} (accepts : t.accepts s = true)
    (h : v.conformsTo s = true) : v.conformsTo t = true := by
  rw [DataType.accepts_iff] at accepts
  rw [← conformsTo_unannotated] at h ⊢
  revert accepts h
  generalize s.unannotated = s
  generalize t.unannotated = t
  intro accepts h
  cases accepts with
  | widened =>
    cases v with
    | int n => rfl
    | _ => cases h
  | descended above => cases v <;> cases h
  | equal same => exact conformsTo_of_beq v same h

end Value

end Pipewright
