import Pipewright.Proofs.Unit.Literals
import Pipewright.Proofs.Unit.Retention
import Pipewright.Proofs.Graph.Dataflow

/-! # Nodes in values
Which nodes are found in a value, at any depth of arrays and maps: those in its parts, and none in
what a literal stands for. -/

namespace Pipewright

/-! ## Parts of values -/

namespace Datum

variable {d part : Datum} {handle : NodeHandle} {name : String} {path rest : List String}
  {entries : Entries} {atNode : Datum → Prop} {t t' : DataType}

/-- The nodes of a map are those of the values in it. -/
theorem mem_nodes_map_iff :
    handle ∈ (Datum.map entries).nodes ↔ ∃ entry ∈ entries, handle ∈ entry.2.nodes := by
  rw [nodes, nodesOfEntries_eq, nodesOfItems_eq, List.flatMap_map, List.mem_flatMap]

/-- Nothing has no fields. -/
@[simp] theorem member_unit (path : List String) : Datum.unit.member path = .unit := by
  cases path <;> rfl

/-- No fields lead to the value itself. -/
@[simp] theorem member_nil (d : Datum) : d.member [] = d := by
  cases d <;> rfl

/-- The nodes of what fields lead to are nodes of the whole value. -/
theorem nodes_member_subset (d : Datum) (path : List String) :
    (d.member path).nodes ⊆ d.nodes := by
  induction path generalizing d with
  | nil =>
    rw [member_nil]
    exact List.Subset.refl _
  | cons name path ih =>
    cases d with
    | map entries =>
      rw [member]
      cases found : Keyed.lookup name entries with
      | none =>
        rw [Option.getD_none, member_unit]
        exact List.nil_subset _
      | some inner =>
        intro handle m
        exact mem_nodes_map_iff.2 ⟨(name, inner), Keyed.mem_of_lookup found, ih inner m⟩
    | _ => exact List.nil_subset _

/-- Fields are followed one after another. -/
theorem member_append (d : Datum) (path rest : List String) :
    d.member (path ++ rest) = (d.member path).member rest := by
  induction path generalizing d with
  | nil => rw [List.nil_append, member_nil]
  | cons name path ih =>
    cases d with
    | map entries => exact ih _
    | _ => exact (member_unit rest).symm

/-- A text has no fields. -/
theorem fields?_text {text : String} (h : (Datum.text text).fields? path = some part) :
    part = .text text := by
  cases path with
  | nil => exact (Option.some.inj h).symm
  | cons name path => cases h

/-- Where fields lead to something, it is found by following them through maps, or it is a text. -/
theorem member_of_fields? (h : d.fields? path = some part) :
    d.member path = part ∨ d.member path = .unit ∧ ∃ text, part = .text text := by
  induction path generalizing d with
  | nil => exact .inl ((member_nil d).trans (Option.some.inj h))
  | cons name path ih =>
    obtain ⟨inner, first, others⟩ := Option.bind_eq_some_iff.1 h
    cases d with
    | map entries =>
      cases first
      exact ih others
    | node handle =>
      -- the fields of a node are texts
      refine .inr ⟨rfl, ?_⟩
      unfold field? at first
      simp only at first
      split at first
      · cases first
        exact ⟨_, fields?_text others⟩
      · split at first
        · cases first
          exact ⟨_, fields?_text others⟩
        · cases first
    | operation registered =>
      refine .inr ⟨rfl, ?_⟩
      unfold field? at first
      simp only at first
      split at first
      · cases first
        exact ⟨_, fields?_text others⟩
      · cases first
    | _ => cases first

/-- What fields lead to has the nodes that are found by following them through maps. -/
theorem nodes_member_of_fields? (h : d.fields? path = some part) :
    (d.member path).nodes = part.nodes := by
  rcases member_of_fields? h with e | ⟨e, text, rfl⟩
  · rw [e]
  · rw [e]
    rfl

/-- The nodes that are found by following fields through maps are those of what the fields lead to. -/
theorem mem_nodes_member_iff :
    handle ∈ (d.member path).nodes ↔ ∃ part, d.fields? path = some part ∧ handle ∈ part.nodes := by
  constructor
  · intro m
    induction path generalizing d with
    | nil =>
      rw [member_nil] at m
      exact ⟨d, rfl, m⟩
    | cons name path ih =>
      cases d with
      | map entries =>
        rw [member] at m
        cases found : Keyed.lookup name entries with
        | none =>
          rw [found, Option.getD_none, member_unit] at m
          cases m
        | some inner =>
          rw [found, Option.getD_some] at m
          obtain ⟨part, leads, m'⟩ := ih m
          exact ⟨part, (fields?_map found path).trans leads, m'⟩
      | _ => cases m
  · rintro ⟨part, leads, m⟩
    rwa [nodes_member_of_fields? leads]

/-- A node is found by following fields through maps exactly if the fields lead to it. -/
theorem member_eq_node_iff :
    d.member path = .node handle ↔ d.fields? path = some (.node handle) := by
  constructor
  · intro h
    induction path generalizing d with
    | nil =>
      rw [member_nil] at h
      rw [h]
      rfl
    | cons name path ih =>
      cases d with
      | map entries => exact ih h
      | _ => cases h
  · intro h
    rcases member_of_fields? h with e | ⟨-, text, e⟩
    · exact e
    · cases e

end Datum

/-- Fields that lead to a type lead to it step by step. -/
theorem DataType.resolve?_append (t : DataType) (path rest : List String) :
    t.resolve? (path ++ rest) = (t.resolve? path).bind fun inner => inner.resolve? rest := by
  induction path generalizing t with
  | nil => rfl
  | cons name path ih =>
    rw [List.cons_append, resolve?, resolve?]
    cases t.field? name with
    | none => rfl
    | some inner => exact ih inner

/-- Where fields go on in a type, a value that fits it has a map. -/
theorem Datum.Fits.exists_map {atNode : Datum → Prop} {t t' : DataType} {d : Datum} {name : String}
    {path rest : List String} (h : Datum.Fits atNode t d)
    (leads : t.resolve? (path ++ name :: rest) = some t') :
    ∃ entries, d.fields? path = some (.map entries) := by
  rw [DataType.resolve?_append] at leads
  obtain ⟨inner, first, others⟩ := Option.bind_eq_some_iff.1 leads
  obtain ⟨part, reached, fits⟩ := h.exists_fields? first
  rw [DataType.resolve?] at others
  split at others
  · next found =>
    obtain ⟨entries, -, rfl, -, -⟩ := fits.exists_field found
    exact ⟨entries, reached⟩
  · cases others

/-! ## Literals -/

namespace Value

mutual

/-- A literal stands for a value without nodes. -/
theorem nodes_toDatum : (v : Value) → v.toDatum.nodes = []
  | .int _ => rfl
  | .float _ => rfl
  | .str _ => rfl
  | .bool _ => rfl
  | .list items => nodes_toDatumItems items
  | .tuple items => nodes_toDatumItems items
  | .dict pairs => by
    refine List.eq_nil_iff_forall_not_mem.2 fun handle m => ?_
    obtain ⟨entry, m', there⟩ := Datum.mem_nodes_map_iff.1 m
    rw [nodes_toDatumPairs pairs entry (Keyed.mem_of_mem_ofList m')] at there
    cases there

/-- So do the literals of a list. -/
theorem nodes_toDatumItems :
    (items : List Value) → Datum.nodesOfItems (toDatumItems items) = []
  | [] => rfl
  | item :: items => by
    unfold toDatumItems Datum.nodesOfItems
    rw [nodes_toDatum item, nodes_toDatumItems items, List.nil_append]

/-- So do the literals of pairs. -/
theorem nodes_toDatumPairs :
    (pairs : List (Value × Value)) → ∀ entry ∈ toDatumPairs pairs, entry.2.nodes = []
  | [], _, m => absurd m List.not_mem_nil
  | (k, v) :: pairs, entry, m => by
    rcases List.mem_cons.1 m with rfl | m
    · exact nodes_toDatum v
    · exact nodes_toDatumPairs pairs entry m

end

/-- What a document is read as has no nodes. -/
theorem nodes_ofText {text : String} {d : Datum} (h : (ofText? text).map toDatum = some d) :
    d.nodes = [] := by
  obtain ⟨v, -, rfl⟩ := Option.map_eq_some_iff.1 h
  exact nodes_toDatum v

mutual

/-- What the code of a literal evaluates to has no nodes. -/
theorem nodes_reading : (v : Value) → {d : Datum} → v.reading = some d → d.nodes = []
  | .int _, _, h => by cases h; rfl
  | .float _, _, h => by cases h; rfl
  | .str _, _, h => by cases h; rfl
  | .bool _, _, h => by cases h; rfl
  | .list items, _, h => by
    obtain ⟨ds, found, rfl⟩ := Option.map_eq_some_iff.1 h
    exact nodes_readings items found
  | .tuple _, _, h => nodes_ofText h
  | .dict _, _, h => nodes_ofText h

/-- What the codes of a list of literals evaluate to has no nodes. -/
theorem nodes_readings :
    (items : List Value) → {ds : List Datum} → readings items = some ds → Datum.nodesOfItems ds = []
  | [], _, h => by cases h; rfl
  | item :: items, _, h => by
    obtain ⟨d, first, rest⟩ := Option.bind_eq_some_iff.1 h
    obtain ⟨ds, others, e⟩ := Option.bind_eq_some_iff.1 rest
    cases e
    unfold Datum.nodesOfItems
    rw [nodes_reading item first, nodes_readings items others, List.nil_append]

end

end Value

end Pipewright
