import Pipewright.DataType.Acceptance
import Pipewright.Datum.Basic
import Pipewright.Proofs.Keyed
import Pipewright.Proofs.Value.Display

/-! # Dictionaries in scripts
The keys of a dictionary become texts in a script. Keys of one type become different texts if they are
different: either all of them are texts already, or none is and what is shown of them tells them apart.
So no entry of a dictionary is lost. -/

namespace Pipewright.Value

/-- The entries that the pairs of a dictionary become, before they are put in order. -/
theorem toDatumPairs_eq_map (pairs : List (Value × Value)) :
    toDatumPairs pairs = pairs.map fun pair => (pair.1.keyText, pair.2.toDatum) := by
  induction pairs with
  | nil => rfl
  | cons pair pairs ih =>
    obtain ⟨k, v⟩ := pair
    rw [toDatumPairs, List.map_cons, ih]

/-! ## Keys of one type -/

variable {v w : Value} {t : DataType}

/-- A text may stand in slots for texts only. -/
theorem unannotated_of_conformsTo_str {text : String} (h : (Value.str text).conformsTo t = true) :
    t.unannotated = .str := by
  unfold conformsTo at h
  cases e : t.unannotated <;> rw [e] at h <;> first | rfl | cases h

/-- Only texts may stand in slots for texts. -/
theorem exists_eq_str (typed : v.conformsTo t = true) (texts : t.unannotated = .str) :
    ∃ text, v = .str text := by
  unfold conformsTo at typed
  rw [texts] at typed
  cases v <;> first | exact ⟨_, rfl⟩ | cases typed

/-- What is not a text becomes what is shown of it. -/
theorem keyText_eq_display (other : ∀ text, v ≠ .str text) : v.keyText = v.display := by
  cases v with
  | str text => exact absurd rfl (other text)
  | _ => rfl

/-- Literals of one type become different texts as keys, if their floating-point numbers are numbers. -/
theorem eq_of_keyText (typed : v.conformsTo t = true) (typed' : w.conformsTo t = true)
    (numeric : v.Numeric) (numeric' : w.Numeric) (same : v.keyText = w.keyText) : v = w := by
  by_cases texts : t.unannotated = .str
  · obtain ⟨text, rfl⟩ := exists_eq_str typed texts
    obtain ⟨text', rfl⟩ := exists_eq_str typed' texts
    exact congrArg _ same
  · have other : ∀ {u : Value}, u.conformsTo t = true → ∀ text, u ≠ .str text := by
      rintro u typed text rfl
      exact texts (unannotated_of_conformsTo_str typed)
    rw [keyText_eq_display (other typed), keyText_eq_display (other typed')] at same
    exact (display_inj numeric numeric').1 same

/-! ## Entries -/

/-- The keys of a dictionary of a type are of the type of its keys. -/
theorem conformsTo_of_mem {pairs : List (Value × Value)} {key value : DataType}
    (typed : pairsConformTo pairs key value = true) {pair : Value × Value} (m : pair ∈ pairs) :
    pair.1.conformsTo key = true := by
  induction pairs with
  | nil => cases m
  | cons first pairs ih =>
    obtain ⟨k, v⟩ := first
    rw [pairsConformTo, Bool.and_eq_true, Bool.and_eq_true] at typed
    rcases List.mem_cons.1 m with rfl | m
    · exact typed.1.1
    · exact ih typed.2 m

/-- Different keys of one type become different keys of entries. -/
theorem nodup_keys_toDatumPairs {pairs : List (Value × Value)} {key value : DataType}
    (typed : pairsConformTo pairs key value = true) (differ : pairs.Pairwise fun a b => a.1 ≠ b.1)
    (numeric : ∀ pair ∈ pairs, pair.1.Numeric) : (Keyed.keys (toDatumPairs pairs)).Nodup := by
  rw [toDatumPairs_eq_map, Keyed.keys, List.map_map]
  refine List.pairwise_map.2 (differ.imp_of_mem fun {a b} m m' apart same => apart ?_)
  exact eq_of_keyText (conformsTo_of_mem typed m) (conformsTo_of_mem typed m') (numeric a m)
    (numeric b m') same

/-- A dictionary of a type loses no entry in a script: if its keys are different from each other and hold
only numbers, there are as many entries as pairs, and under the text of each key is its own value. -/
theorem toDatum_keeps_entries {pairs : List (Value × Value)} {key value : DataType}
    (typed : (Value.dict pairs).conformsTo (.dict key value) = true)
    (differ : pairs.Pairwise fun a b => a.1 ≠ b.1) (numeric : ∀ pair ∈ pairs, pair.1.Numeric) :
    ∃ entries, (Value.dict pairs).toDatum = .map entries ∧ Keyed.Sorted entries ∧
      entries.length = pairs.length ∧
      ∀ pair ∈ pairs, Keyed.lookup pair.1.keyText entries = some pair.2.toDatum := by
  have once := nodup_keys_toDatumPairs typed differ numeric
  refine ⟨Keyed.ofList (toDatumPairs pairs), rfl, Keyed.sorted_ofList _, ?_, fun pair m => ?_⟩
  · rw [(Keyed.perm_ofList once).length_eq, toDatumPairs_eq_map, List.length_map]
  · rw [Keyed.lookup_ofList once]
    refine Keyed.lookup_of_mem_of_nodup once ?_
    rw [toDatumPairs_eq_map]
    exact List.mem_map_of_mem m

/-- Keys that are tuples of a text and a number, two of which differ in the kind of the number only and
one of which has a text that looks like the rest of another key. -/
theorem toDatum_keeps_entries_tuples :
    let pairs : List (Value × Value) := [(.tuple [.str "a", .int 1], .bool true),
      (.tuple [.str "a", .float 1], .bool false), (.tuple [.str "a\", 1", .int 1], .bool true)]
    ((Value.dict pairs).conformsTo (.dict (.tuple [.str, .float]) .bool) = true ∧
      (pairs.Pairwise fun a b => a.1 ≠ b.1) ∧ ∀ pair ∈ pairs, pair.1.Numeric) ∧
    ∃ entries, (Value.dict pairs).toDatum = .map entries ∧ Keyed.Sorted entries ∧
      entries.length = 3 ∧
      ∀ pair ∈ pairs, Keyed.lookup pair.1.keyText entries = some pair.2.toDatum := by
  intro pairs
  have typed : (Value.dict pairs).conformsTo (.dict (.tuple [.str, .float]) .bool) = true := rfl
  have differ : pairs.Pairwise fun a b => a.1 ≠ b.1 := by simp [pairs]
  have one : (1 : Float).isNaN = false := by decide +kernel
  have numeric : ∀ pair ∈ pairs, pair.1.Numeric := by
    intro pair m
    simp only [pairs, List.mem_cons, List.not_mem_nil, or_false] at m
    rcases m with rfl | rfl | rfl
    · exact fun x m => absurd m List.not_mem_nil
    · intro x m
      have only : x ∈ [(1 : Float)] := m
      rw [List.mem_singleton.1 only, one]
    · exact fun x m => absurd m List.not_mem_nil
  exact ⟨⟨typed, differ, numeric⟩, toDatum_keeps_entries typed differ numeric⟩

end Pipewright.Value
