import Pipewright.Proofs.Datum.Entries
import Pipewright.Proofs.Text.Bytes

/-! # Literals that went through a script
A literal that becomes a script value and a literal again comes back in a normal form: tuples are lists,
the keys of dictionaries are texts in the order of their bytes, and of two pairs that come to have one
key the later one is left. The normal form of a normal form is itself, and exactly the literals in
normal form come back unchanged. -/

namespace Pipewright

universe u

/-! ## Entries in order -/

section Arranged

variable {α : Type u}

/-- The last entries of all keys, in the order of the bytes of the keys. -/
def Keyed.arranged (entries : List (String × α)) : List (String × α) :=
  (latest entries).mergeSort fun a b => decide (Text.bytes a.1 ≤ Text.bytes b.1)

/-- Arranged entries are in ascending order. -/
theorem Keyed.sorted_arranged (entries : List (String × α)) : Sorted (arranged entries) := by
  have perm : (arranged entries).Perm (latest entries) := List.mergeSort_perm _ _
  have ascending : (arranged entries).Pairwise
      fun a b => decide (Text.bytes a.1 ≤ Text.bytes b.1) = true := by
    refine List.pairwise_mergeSort (fun a b c h h' => ?_) (fun a b => ?_) _
    · rw [decide_eq_true_iff] at h h' ⊢
      exact List.le_trans h h'
    · rw [Bool.or_eq_true, decide_eq_true_iff, decide_eq_true_iff]
      exact List.le_total _ _
  have once : (arranged entries).Pairwise fun a b => a.1 ≠ b.1 :=
    List.pairwise_map.1 ((perm.map Prod.fst).nodup_iff.2 (nodup_keys_latest entries))
  refine (ascending.and once).imp fun {a b} both => ?_
  have le := Text.bytes_le_iff.1 (of_decide_eq_true both.1)
  exact String.not_le.1 fun ge => both.2 (String.le_antisymm le ge)

/-- The map of entries under texts consists of the arranged entries. -/
theorem Keyed.ofList_eq_arranged (entries : List (String × α)) :
    ofList entries = arranged entries := by
  have perm : (arranged entries).Perm (latest entries) := List.mergeSort_perm _ _
  have perm' := perm_ofList (nodup_keys_latest entries)
  rw [ofList_latest] at perm'
  exact (perm'.trans perm.symm).eq_of_pairwise
    (fun a b _ _ below above => absurd (String.lt_trans below above) (String.lt_irrefl _))
    (sorted_ofList entries) (sorted_arranged entries)

end Arranged

namespace Value

/-! ## Normal forms -/

/-- A dictionary whose keys are texts. -/
def ofEntries (entries : List (String × Value)) : Value :=
  .dict (entries.map fun entry => (.str entry.1, entry.2))

mutual

/-- The normal form of a literal: tuples are lists, and dictionaries have texts for keys, in order and each
once. -/
def normal : Value → Value
  | .int n => .int n
  | .float x => .float x
  | .str text => .str text
  | .bool b => .bool b
  | .list items => .list (normalItems items)
  | .tuple items => .list (normalItems items)
  | .dict pairs => ofEntries (Keyed.arranged (normalPairs pairs))

/-- The normal forms of a list of literals. -/
def normalItems : List Value → List Value
  | [] => []
  | item :: items => normal item :: normalItems items

/-- The normal forms of pairs: a key that is a text stays as it is, any other one is replaced by what is
shown of it. -/
def normalPairs : List (Value × Value) → List (String × Value)
  | [] => []
  | (.str text, v) :: pairs => (text, normal v) :: normalPairs pairs
  | (key, v) :: pairs => (display key, normal v) :: normalPairs pairs

end

/-- A literal in normal form: no tuples, and dictionaries with texts for keys, in the order of their bytes and
each once. -/
inductive IsNormal : Value → Prop
  /-- A whole number. -/
  | int (n : Int64) : IsNormal (.int n)
  /-- A floating-point number. -/
  | float (x : Float) : IsNormal (.float x)
  /-- A text. -/
  | str (text : String) : IsNormal (.str text)
  /-- A truth value. -/
  | bool (b : Bool) : IsNormal (.bool b)
  /-- A list of literals in normal form. -/
  | list {items : List Value} (each : ∀ item ∈ items, IsNormal item) : IsNormal (.list items)
  /-- A dictionary of literals in normal form. -/
  | dict {entries : List (String × Value)} (each : ∀ entry ∈ entries, IsNormal entry.2)
    (ascending : entries.Pairwise fun a b => Text.bytes a.1 < Text.bytes b.1) :
    IsNormal (ofEntries entries)

/-- The normal forms of pairs have the texts of the keys as keys. -/
theorem normalPairs_eq_map (pairs : List (Value × Value)) :
    normalPairs pairs = pairs.map fun pair => (pair.1.keyText, pair.2.normal) := by
  induction pairs with
  | nil => rfl
  | cons pair pairs ih =>
    obtain ⟨k, v⟩ := pair
    cases k <;> rw [normalPairs, List.map_cons, ih] <;> first | rfl | simp

/-- The script values of a list are those of its items. -/
theorem toDatumItems_eq_map (items : List Value) : toDatumItems items = items.map toDatum := by
  induction items with
  | nil => rfl
  | cons item items ih => rw [toDatumItems, List.map_cons, ih]

/-! ## Normal forms are normal -/

mutual

/-- The normal form of a literal is in normal form. -/
theorem isNormal_normal : (v : Value) → v.normal.IsNormal
  | .int n => .int n
  | .float x => .float x
  | .str text => .str text
  | .bool b => .bool b
  | .list items => .list (isNormal_normalItems items)
  | .tuple items => .list (isNormal_normalItems items)
  | .dict pairs => by
    refine .dict (fun entry m => isNormal_normalPairs pairs entry ?_) ?_
    · rw [← Keyed.ofList_eq_arranged] at m
      exact Keyed.mem_of_mem_ofList m
    · exact (Keyed.sorted_arranged _).imp Text.bytes_lt_iff.2

/-- So are those of a list of literals. -/
theorem isNormal_normalItems : (items : List Value) → ∀ item ∈ normalItems items, item.IsNormal
  | [], _, m => absurd m List.not_mem_nil
  | first :: items, item, m => by
    rcases List.mem_cons.1 m with e | m
    · rw [e]
      exact isNormal_normal first
    · exact isNormal_normalItems items item m

/-- So are the values of pairs. -/
theorem isNormal_normalPairs : (pairs : List (Value × Value)) →
    ∀ entry ∈ normalPairs pairs, entry.2.IsNormal
  | [], _, m => absurd m List.not_mem_nil
  | (k, v) :: pairs, entry, m => by
    rw [normalPairs_eq_map, List.map_cons, ← normalPairs_eq_map] at m
    rcases List.mem_cons.1 m with e | m
    · rw [e]
      exact isNormal_normal v
    · exact isNormal_normalPairs pairs entry m

end

/-! ## Through a script -/

/-- The script value of a dictionary whose keys are ascending texts. -/
theorem toDatum_ofEntries {entries : List (String × Value)} (sorted : Keyed.Sorted entries) :
    (ofEntries entries).toDatum = .map (Keyed.mapValues toDatum entries) := by
  have pairs : toDatumPairs (entries.map fun entry => (.str entry.1, entry.2)) =
      Keyed.mapValues toDatum entries := by
    rw [toDatumPairs_eq_map, List.map_map]
    rfl
  unfold ofEntries
  rw [toDatum, pairs, Keyed.ofList_of_sorted (sorted.mapValues _)]

mutual

/-- A literal and its normal form have the same script value. -/
theorem toDatum_normal : (v : Value) → v.normal.toDatum = v.toDatum
  | .int _ => rfl
  | .float _ => rfl
  | .str _ => rfl
  | .bool _ => rfl
  | .list items => by rw [normal, toDatum, toDatum, toDatumItems_normalItems items]
  | .tuple items => by rw [normal, toDatum, toDatum, toDatumItems_normalItems items]
  | .dict pairs => by
    rw [normal, toDatum_ofEntries (Keyed.sorted_arranged _), toDatum, ← Keyed.ofList_eq_arranged,
      ← Keyed.ofList_mapValues, mapValues_normalPairs pairs]

/-- So do the items of a list. -/
theorem toDatumItems_normalItems : (items : List Value) →
    toDatumItems (normalItems items) = toDatumItems items
  | [] => rfl
  | item :: items => by
    rw [normalItems, toDatumItems, toDatumItems, toDatum_normal item, toDatumItems_normalItems items]

/-- So do the values of pairs. -/
theorem mapValues_normalPairs : (pairs : List (Value × Value)) →
    Keyed.mapValues toDatum (normalPairs pairs) = toDatumPairs pairs
  | [] => rfl
  | (k, v) :: pairs => by
    have rest := mapValues_normalPairs pairs
    rw [normalPairs_eq_map] at rest ⊢
    rw [toDatumPairs, ← rest, ← toDatum_normal v]
    rfl

end

/-- The literals of a list of script values are those of its items, if all of them are read. -/
theorem ofDatumItems?_map {items : List Value} (h : ∀ item ∈ items, ofDatum? item.toDatum = some item) :
    ofDatumItems? (items.map toDatum) = some items := by
  induction items with
  | nil => rfl
  | cons item items ih =>
    obtain ⟨first, others⟩ := List.forall_mem_cons.1 h
    rw [List.map_cons, ofDatumItems?, first, ih others]
    rfl

/-- The pairs of entries are read if all values are. -/
theorem ofDatumEntries?_mapValues {entries : List (String × Value)}
    (h : ∀ entry ∈ entries, ofDatum? entry.2.toDatum = some entry.2) :
    ofDatumEntries? (Keyed.mapValues toDatum entries) =
      some (entries.map fun entry => (.str entry.1, entry.2)) := by
  induction entries with
  | nil => rfl
  | cons entry entries ih =>
    obtain ⟨first, others⟩ := List.forall_mem_cons.1 h
    have opened : Keyed.mapValues toDatum (entry :: entries) =
        (entry.1, entry.2.toDatum) :: Keyed.mapValues toDatum entries := rfl
    rw [opened, ofDatumEntries?, first, ih others]
    rfl

/-- A literal in normal form comes back from a script unchanged. -/
theorem IsNormal.ofDatum?_toDatum {v : Value} (h : v.IsNormal) : ofDatum? v.toDatum = some v := by
  induction h with
  | int n => rfl
  | float x => rfl
  | str text => rfl
  | bool b => rfl
  | list each ih => rw [toDatum, toDatumItems_eq_map, ofDatum?, ofDatumItems?_map ih]; rfl
  | dict each ascending ih =>
    have sorted := ascending.imp Text.bytes_lt_iff.1
    rw [toDatum_ofEntries sorted, ofDatum?, ofDatumEntries?_mapValues ih]
    rfl

/-- A literal comes back from a script as its normal form, which comes back unchanged; and exactly the
literals in normal form do. -/
theorem ofDatum?_toDatum_normal (v : Value) :
    ofDatum? v.toDatum = some v.normal ∧ ofDatum? v.normal.toDatum = some v.normal ∧
      (ofDatum? v.toDatum = some v ↔ v.IsNormal) := by
  have fixed := (isNormal_normal v).ofDatum?_toDatum
  have back : ofDatum? v.toDatum = some v.normal := by rw [← toDatum_normal, fixed]
  refine ⟨back, fixed, fun same => ?_, IsNormal.ofDatum?_toDatum⟩
  rw [back, Option.some.injEq] at same
  rw [← same]
  exact isNormal_normal v

end Value

end Pipewright
