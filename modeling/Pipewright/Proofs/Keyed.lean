import Pipewright.Keyed

/-! # Keyed lists in ascending order
What `lookup` finds in a list that is ascending in its keys is what the list holds, and every way
of changing such a list keeps it ascending. -/

namespace Pipewright.Keyed

universe u v w

variable {κ : Type u} {α : Type v} {β : Type w}

section Lookup

variable [DecidableEq κ]

/-- What is found under a key is an entry of the list. -/
theorem mem_of_lookup {k : κ} {a : α} {entries : List (κ × α)} (h : lookup k entries = some a) :
    (k, a) ∈ entries := by
  induction entries with
  | nil => simp at h
  | cons entry rest ih =>
    obtain ⟨k', a'⟩ := entry
    rw [lookup_cons] at h
    split at h
    · next e =>
      rw [e, Option.some.inj h]
      exact List.mem_cons_self
    · exact List.mem_cons_of_mem _ (ih h)

/-- A key is found exactly if it is among the keys. -/
theorem isSome_lookup_iff {k : κ} {entries : List (κ × α)} :
    (lookup k entries).isSome ↔ k ∈ keys entries := by
  induction entries with
  | nil => simp [keys]
  | cons entry rest ih =>
    obtain ⟨k', a'⟩ := entry
    by_cases e : k = k'
    · simp [keys, e]
    · have ih' : (lookup k rest).isSome ↔ k ∈ rest.map Prod.fst := ih
      simp [keys, e, ih']

/-- A key is stored exactly if it is among the keys. -/
theorem contains_iff {k : κ} {entries : List (κ × α)} :
    contains k entries = true ↔ k ∈ keys entries := isSome_lookup_iff

/-- A key that is not among the keys is not found. -/
theorem lookup_eq_none_iff {k : κ} {entries : List (κ × α)} :
    lookup k entries = none ↔ k ∉ keys entries := by
  rw [← isSome_lookup_iff, Option.not_isSome_iff_eq_none]

/-- Under a key among the keys something is stored. -/
theorem exists_lookup_of_mem_keys {k : κ} {entries : List (κ × α)} (h : k ∈ keys entries) :
    ∃ a, lookup k entries = some a :=
  Option.isSome_iff_exists.1 (isSome_lookup_iff.2 h)

/-- Changing the stored value of one key changes no keys. -/
@[simp] theorem keys_modify (k : κ) (f : α → α) (entries : List (κ × α)) :
    keys (modify k f entries) = keys entries := by
  induction entries with
  | nil => rfl
  | cons entry rest ih =>
    obtain ⟨k', a'⟩ := entry
    have ih' : (modify k f rest).map Prod.fst = rest.map Prod.fst := ih
    by_cases e : k = k' <;> simp [keys, modify, e, ih']

/-- The value under the changed key is the changed value. -/
theorem lookup_modify_self (k : κ) (f : α → α) (entries : List (κ × α)) :
    lookup k (modify k f entries) = (lookup k entries).map f := by
  induction entries with
  | nil => rfl
  | cons entry rest ih =>
    obtain ⟨k', a'⟩ := entry
    by_cases e : k = k' <;> simp [modify, e, ih]

/-- Changing the value of one key leaves every other key as it was. -/
theorem lookup_modify_of_ne {j k : κ} (h : j ≠ k) (f : α → α) (entries : List (κ × α)) :
    lookup j (modify k f entries) = lookup j entries := by
  induction entries with
  | nil => rfl
  | cons entry rest ih =>
    obtain ⟨k', a'⟩ := entry
    by_cases e : k = k'
    · have h' : j ≠ k' := fun e' => h (e'.trans e.symm)
      simp [modify, e, h']
    · by_cases e' : j = k' <;> simp [modify, e, e', ih]

/-- Changing a value that the change leaves as it is changes nothing. -/
theorem modify_eq_self {k : κ} {f : α → α} {entries : List (κ × α)}
    (fixed : ∀ a, lookup k entries = some a → f a = a) : modify k f entries = entries := by
  induction entries with
  | nil => rfl
  | cons entry rest ih =>
    obtain ⟨k', a⟩ := entry
    rw [modify]
    split
    · next e => rw [fixed a (by rw [lookup_cons, if_pos e])]
    · next e => rw [ih fun a found => fixed a (by rw [lookup_cons, if_neg e, found])]

omit [DecidableEq κ] in
/-- Changing values changes no keys. -/
@[simp] theorem keys_mapValues (f : α → β) (entries : List (κ × α)) :
    keys (mapValues f entries) = keys entries := by
  simp [keys, mapValues]

/-- Under a key of changed values the changed value is found. -/
theorem lookup_mapValues (f : α → β) (k : κ) (entries : List (κ × α)) :
    lookup k (mapValues f entries) = (lookup k entries).map f := by
  induction entries with
  | nil => rfl
  | cons entry rest ih =>
    obtain ⟨k', a'⟩ := entry
    have ih' : lookup k (rest.map fun entry => (entry.1, f entry.2)) = (lookup k rest).map f := ih
    by_cases e : k = k' <;> simp [mapValues, e, ih']

/-- A key is stored when values are changed exactly if it was before. -/
@[simp] theorem contains_mapValues (f : α → β) (k : κ) (entries : List (κ × α)) :
    contains k (mapValues f entries) = contains k entries := by
  simp [contains, lookup_mapValues]

/-- Storing a value that is changed, among values that are changed. -/
theorem insert_mapValues [LT κ] [DecidableLT κ] (f : α → β) (k : κ) (a : α)
    (entries : List (κ × α)) :
    insert k (f a) (mapValues f entries) = mapValues f (insert k a entries) := by
  induction entries with
  | nil => rfl
  | cons entry rest ih =>
    obtain ⟨k', a'⟩ := entry
    have ih' : insert k (f a) (rest.map fun entry => (entry.1, f entry.2)) =
        (insert k a rest).map fun entry => (entry.1, f entry.2) := ih
    by_cases before : k < k'
    · simp [mapValues, insert, before]
    · by_cases e : k = k'
      · subst e
        simp [mapValues, insert, before]
      · simp [mapValues, insert, before, e, ih']

/-! ## Lists in which every key occurs once -/

/-- What is found in two lists, one behind the other. -/
theorem lookup_append (k : κ) (before after : List (κ × α)) :
    lookup k (before ++ after) = (lookup k before).or (lookup k after) := by
  induction before with
  | nil => rfl
  | cons entry rest ih =>
    obtain ⟨k', a⟩ := entry
    rw [List.cons_append, lookup_cons, lookup_cons, ih]
    split <;> rfl

/-- Behind a list without a key only what follows counts. -/
theorem lookup_append_of_not_mem {k : κ} {before : List (κ × α)} (h : k ∉ keys before)
    (after : List (κ × α)) : lookup k (before ++ after) = lookup k after := by
  rw [lookup_append, lookup_eq_none_iff.2 h, Option.none_or]

/-- An entry of a list in which every key occurs once is found under its key. -/
theorem lookup_of_mem_of_nodup {k : κ} {a : α} {entries : List (κ × α)}
    (once : (keys entries).Nodup) (m : (k, a) ∈ entries) : lookup k entries = some a := by
  induction entries with
  | nil => cases m
  | cons entry rest ih =>
    obtain ⟨k', a'⟩ := entry
    have once' : (k' :: keys rest).Nodup := once
    obtain ⟨fresh, once''⟩ := List.nodup_cons.1 once'
    rcases List.mem_cons.1 m with e | m
    · cases e
      rw [lookup_cons, if_pos rfl]
    · have there : k ∈ keys rest := List.mem_map_of_mem m
      have ne : k ≠ k' := fun e => fresh (e ▸ there)
      rw [lookup_cons, if_neg ne]
      exact ih once'' m

/-- Changing a value in a list in which every key occurs once changes every entry of the key. -/
theorem modify_eq_map (k : κ) (f : α → α) {entries : List (κ × α)}
    (once : (keys entries).Nodup) :
    modify k f entries = entries.map fun e => (e.1, if e.1 = k then f e.2 else e.2) := by
  induction entries with
  | nil => rfl
  | cons entry rest ih =>
    obtain ⟨k', a⟩ := entry
    have once' : (k' :: keys rest).Nodup := once
    obtain ⟨fresh, once''⟩ := List.nodup_cons.1 once'
    rw [modify, List.map_cons]
    by_cases e : k = k'
    · rw [if_pos e, if_pos e.symm]
      congr 1
      -- no later entry has the key
      have others : ∀ entry ∈ rest, entry = (entry.1, if entry.1 = k then f entry.2 else entry.2) := by
        intro entry m
        have ne : entry.1 ≠ k := by
          rintro rfl
          exact fresh (e ▸ List.mem_map_of_mem m)
        rw [if_neg ne]
      have same := List.map_congr_left others
      rw [List.map_id'] at same
      exact same
    · rw [if_neg e, if_neg (Ne.symm e), ih once'']

/-- Changing a value behind a list without its key. -/
theorem modify_append_of_not_mem {k : κ} (f : α → α) {before : List (κ × α)}
    (h : k ∉ keys before) (after : List (κ × α)) :
    modify k f (before ++ after) = before ++ modify k f after := by
  induction before with
  | nil => rfl
  | cons entry rest ih =>
    obtain ⟨k', a⟩ := entry
    have h' : k ∉ k' :: keys rest := h
    rw [List.mem_cons, not_or] at h'
    rw [List.cons_append, modify, if_neg h'.1, ih h'.2, List.cons_append]

/-! ## Later entries of a key -/

/-- The entries of which each is the last one of its key. -/
def latest : List (κ × α) → List (κ × α)
  | [] => []
  | entry :: rest => if entry.1 ∈ keys rest then latest rest else entry :: latest rest

/-- Every key keeps an entry. -/
theorem mem_keys_latest {k : κ} {entries : List (κ × α)} :
    k ∈ keys (latest entries) ↔ k ∈ keys entries := by
  induction entries with
  | nil => rfl
  | cons entry rest ih =>
    obtain ⟨k', a⟩ := entry
    have opened : k ∈ keys ((k', a) :: rest) ↔ k = k' ∨ k ∈ keys rest := List.mem_cons
    rw [latest, opened]
    split
    · next again =>
      rw [ih]
      refine ⟨.inr, ?_⟩
      rintro (rfl | m)
      · exact again
      · exact m
    · have opened' : k ∈ keys ((k', a) :: latest rest) ↔ k = k' ∨ k ∈ keys (latest rest) :=
        List.mem_cons
      rw [opened', ih]

/-- Every key keeps one entry. -/
theorem nodup_keys_latest (entries : List (κ × α)) : (keys (latest entries)).Nodup := by
  induction entries with
  | nil => exact List.nodup_nil
  | cons entry rest ih =>
    rw [latest]
    split
    · exact ih
    · next last => exact List.nodup_cons.2 ⟨fun m => last (mem_keys_latest.1 m), ih⟩

/-- Where every key occurs once, its entry is the last one. -/
theorem latest_eq_self {entries : List (κ × α)} (once : (keys entries).Nodup) :
    latest entries = entries := by
  induction entries with
  | nil => rfl
  | cons entry rest ih =>
    have once' : (entry.1 :: keys rest).Nodup := once
    obtain ⟨fresh, once''⟩ := List.nodup_cons.1 once'
    rw [latest, if_neg fresh, ih once'']

end Lookup

section Order

variable [LT κ]

/-- The keys of an ascending list are ascending. -/
theorem Sorted.keys {entries : List (κ × α)} (h : Sorted entries) :
    (keys entries).Pairwise (· < ·) :=
  List.pairwise_map.2 h

/-- A list whose keys are ascending is ascending. -/
theorem Sorted.of_keys {entries : List (κ × α)} (h : (Keyed.keys entries).Pairwise (· < ·)) :
    Sorted entries :=
  List.pairwise_map.1 h

/-- An ascending list stays ascending when entries are dropped. -/
theorem Sorted.filter {entries : List (κ × α)} (h : Sorted entries) (p : κ × α → Bool) :
    Sorted (entries.filter p) :=
  List.Pairwise.filter p h

/-- No key occurs twice in an ascending list. -/
theorem Sorted.nodup_keys (irrefl : ∀ a : κ, ¬ a < a) {entries : List (κ × α)} (h : Sorted entries) :
    (Keyed.keys entries).Nodup := by
  refine h.keys.imp ?_
  rintro k _ below rfl
  exact irrefl k below

variable [DecidableEq κ]

/-- Changing a stored value keeps ascending order. -/
theorem Sorted.modify {entries : List (κ × α)} (h : Sorted entries) (k : κ) (f : α → α) :
    Sorted (Keyed.modify k f entries) := by
  apply Sorted.of_keys
  rw [keys_modify]
  exact h.keys

omit [DecidableEq κ] in
/-- Changing values keeps ascending order. -/
theorem Sorted.mapValues {entries : List (κ × α)} (h : Sorted entries) (f : α → β) :
    Sorted (Keyed.mapValues f entries) := by
  apply Sorted.of_keys
  rw [keys_mapValues]
  exact h.keys

/-- Dropping a key keeps ascending order. -/
theorem Sorted.erase {entries : List (κ × α)} (h : Sorted entries) (k : κ) :
    Sorted (Keyed.erase k entries) := h.filter _

/-- In an ascending list every entry is found under its key. -/
theorem Sorted.lookup_of_mem (irrefl : ∀ a : κ, ¬ a < a) {k : κ} {a : α}
    {entries : List (κ × α)} (h : Sorted entries) (m : (k, a) ∈ entries) :
    lookup k entries = some a := by
  induction entries with
  | nil => simp at m
  | cons entry rest ih =>
    obtain ⟨k', a'⟩ := entry
    obtain ⟨below, sorted⟩ := List.pairwise_cons.1 h
    rcases List.mem_cons.1 m with e | m
    · obtain ⟨rfl, rfl⟩ := Prod.mk.inj e
      simp
    · have ne : k ≠ k' := fun e => irrefl k (e ▸ below _ m)
      rw [lookup_cons, if_neg ne]
      exact ih sorted m

/-- In an ascending list that is cut down, what is found under a key is what was found there, if it
is kept. -/
theorem Sorted.lookup_filter (irrefl : ∀ a : κ, ¬ a < a) {entries : List (κ × α)}
    (h : Sorted entries) (k : κ) (p : κ × α → Bool) :
    lookup k (entries.filter p) = (lookup k entries).filter fun a => p (k, a) := by
  cases found : lookup k entries with
  | none =>
    have absent : k ∉ Keyed.keys (entries.filter p) := fun m =>
      lookup_eq_none_iff.1 found (List.Sublist.map Prod.fst List.filter_sublist |>.subset m)
    rw [lookup_eq_none_iff.2 absent]
    rfl
  | some a =>
    have m := mem_of_lookup found
    cases kept : p (k, a) with
    | true =>
      rw [(h.filter p).lookup_of_mem irrefl (List.mem_filter.2 ⟨m, kept⟩)]
      simp [Option.filter, kept]
    | false =>
      have absent : k ∉ Keyed.keys (entries.filter p) := by
        intro within
        obtain ⟨⟨_, a'⟩, m', rfl⟩ := List.mem_map.1 within
        obtain ⟨there, kept'⟩ := List.mem_filter.1 m'
        rw [h.lookup_of_mem irrefl there] at found
        rw [Option.some.inj found, kept] at kept'
        exact Bool.false_ne_true kept'
      rw [lookup_eq_none_iff.2 absent]
      simp [Option.filter, kept]

/-- In an ascending list a value is found under a key exactly if the two are an entry. -/
theorem Sorted.lookup_eq_some_iff (irrefl : ∀ a : κ, ¬ a < a) {k : κ} {a : α}
    {entries : List (κ × α)} (h : Sorted entries) :
    lookup k entries = some a ↔ (k, a) ∈ entries :=
  ⟨mem_of_lookup, h.lookup_of_mem irrefl⟩

/-- Ascending lists are told by what is found in them. -/
theorem Sorted.ext (irrefl : ∀ a : κ, ¬ a < a) (trans : ∀ {a b c : κ}, a < b → b < c → a < c)
    {entries entries' : List (κ × α)} (h : Sorted entries) (h' : Sorted entries')
    (same : ∀ k, lookup k entries = lookup k entries') : entries = entries' := by
  have once : ∀ {l : List (κ × α)}, Sorted l → l.Nodup := by
    intro l sorted
    refine List.Pairwise.imp ?_ sorted
    rintro a _ before rfl
    exact irrefl _ before
  have perm : entries.Perm entries' := by
    rw [List.perm_ext_iff_of_nodup (once h) (once h')]
    rintro ⟨k, a⟩
    rw [← h.lookup_eq_some_iff irrefl, ← h'.lookup_eq_some_iff irrefl, same]
  exact perm.eq_of_pairwise (fun a b _ _ l l' => absurd (trans l l') (irrefl _)) h h'

variable [DecidableLT κ]

/-- The keys after an insertion are the new one and those that were there. -/
theorem mem_keys_insert {j k : κ} {a : α} {entries : List (κ × α)} :
    j ∈ Keyed.keys (Keyed.insert k a entries) ↔ j = k ∨ j ∈ Keyed.keys entries := by
  by_cases e : j = k
  · rw [e, ← isSome_lookup_iff, lookup_insert_self]
    simp
  · rw [← isSome_lookup_iff, lookup_insert_of_ne e, isSome_lookup_iff]
    simp [e]

/-- Storing entries one after another keeps what is not stored anew; of two entries of a key the later one
counts. -/
theorem lookup_foldl_insert_latest (k : κ) (entries stored : List (κ × α)) :
    lookup k (entries.foldl (fun stored entry => insert entry.1 entry.2 stored) stored) =
      (lookup k (latest entries)).or (lookup k stored) := by
  induction entries generalizing stored with
  | nil => rfl
  | cons entry rest ih =>
    obtain ⟨k', a⟩ := entry
    rw [List.foldl_cons, ih, latest]
    by_cases e : k = k'
    · subst e
      rw [lookup_insert_self]
      split
      · next again =>
        obtain ⟨a', found⟩ := exists_lookup_of_mem_keys (mem_keys_latest.2 again)
        rw [found]
        rfl
      · next last =>
        rw [lookup_eq_none_iff.2 fun m => last (mem_keys_latest.1 m), lookup_cons, if_pos rfl]
        rfl
    · rw [lookup_insert_of_ne e]
      split
      · rfl
      · rw [lookup_cons, if_neg e]

/-- Storing entries one after another keeps what is not stored anew. -/
theorem lookup_foldl_insert {entries : List (κ × α)} (once : (keys entries).Nodup) (k : κ)
    (stored : List (κ × α)) :
    lookup k (entries.foldl (fun stored entry => insert entry.1 entry.2 stored) stored) =
      (lookup k entries).or (lookup k stored) := by
  rw [lookup_foldl_insert_latest, latest_eq_self once]

/-- What is found in the map of entries with different keys is what is found in the list. -/
theorem lookup_ofList {entries : List (κ × α)} (once : (keys entries).Nodup) (k : κ) :
    lookup k (ofList entries) = lookup k entries := by
  unfold ofList
  rw [lookup_foldl_insert once, lookup_nil, Option.or_none]

/-- Nothing is lost when each item is kept once, and nothing is added. -/
theorem mem_distinct {k : κ} {items : List κ} : k ∈ distinct items ↔ k ∈ items := by
  have each : ∀ stored : List (κ × Unit),
      k ∈ keys ((items.map fun k => (k, ())).foldl
        (fun stored entry => insert entry.1 entry.2 stored) stored) ↔
        k ∈ items ∨ k ∈ keys stored := by
    induction items with
    | nil => simp
    | cons item items ih =>
      intro stored
      rw [List.map_cons, List.foldl_cons, ih, mem_keys_insert, List.mem_cons, or_left_comm, or_assoc]
  exact (each []).trans (by simp [keys])

end Order

/-- Inserting under a text keeps ascending order. -/
theorem Sorted.insert_text {entries : List (String × α)} (h : Sorted entries) (k : String) (a : α) :
    Sorted (Keyed.insert k a entries) :=
  h.insert String.lt_trans fun h ne => Decidable.byContradiction fun h' =>
    ne (String.le_antisymm (String.not_lt.1 h') (String.not_lt.1 h))

/-- Inserting entries under texts one after another keeps ascending order. -/
theorem Sorted.foldl_insert {stored : List (String × α)} (h : Sorted stored)
    (entries : List (String × α)) :
    Sorted (entries.foldl (fun stored entry => Keyed.insert entry.1 entry.2 stored) stored) := by
  induction entries generalizing stored with
  | nil => exact h
  | cons entry rest ih => exact ih (h.insert_text _ _)

/-- What is stored under texts one after another was there or is one of the entries. -/
theorem mem_of_mem_foldl_insert {entry : String × α} {entries stored : List (String × α)}
    (m : entry ∈ entries.foldl (fun stored entry => Keyed.insert entry.1 entry.2 stored) stored) :
    entry ∈ entries ∨ entry ∈ stored := by
  induction entries generalizing stored with
  | nil => exact .inr m
  | cons first rest ih =>
    rcases ih m with m | m
    · exact .inl (List.mem_cons_of_mem _ m)
    · rcases mem_of_mem_insert m with e | m
      · exact .inl (e ▸ List.mem_cons_self)
      · exact .inr m

/-- What is in the map of entries under texts is one of the entries. -/
theorem mem_of_mem_ofList {entry : String × α} {entries : List (String × α)}
    (m : entry ∈ ofList entries) : entry ∈ entries :=
  (mem_of_mem_foldl_insert m).resolve_right List.not_mem_nil

/-- The map of entries under texts is ascending. -/
theorem sorted_ofList (entries : List (String × α)) : Sorted (ofList entries) :=
  Sorted.foldl_insert List.Pairwise.nil entries

/-- Entries under texts that are in ascending order are their own map. -/
theorem ofList_of_sorted {entries : List (String × α)} (h : Sorted entries) :
    ofList entries = entries :=
  (sorted_ofList entries).ext String.lt_irrefl String.lt_trans h fun k =>
    lookup_ofList (h.nodup_keys String.lt_irrefl) k

/-- In the map of entries under texts the last entry of a key counts. -/
theorem ofList_latest (entries : List (String × α)) : ofList (latest entries) = ofList entries := by
  refine (sorted_ofList _).ext String.lt_irrefl String.lt_trans (sorted_ofList _) fun k => ?_
  rw [lookup_ofList (nodup_keys_latest entries)]
  unfold ofList
  rw [lookup_foldl_insert_latest, lookup_nil, Option.or_none]

/-- The map of changed values has the changed values of the map. -/
theorem ofList_mapValues {β : Type w} (f : α → β) (entries : List (String × α)) :
    ofList (mapValues f entries) = mapValues f (ofList entries) := by
  have each : ∀ stored : List (String × α),
      (mapValues f entries).foldl (fun stored entry => insert entry.1 entry.2 stored)
        (mapValues f stored) =
      mapValues f (entries.foldl (fun stored entry => insert entry.1 entry.2 stored) stored) := by
    induction entries with
    | nil => exact fun _ => rfl
    | cons entry rest ih =>
      intro stored
      rw [List.foldl_cons, ← ih, ← insert_mapValues]
      rfl
  exact each []

/-- The map of entries under different texts has exactly these entries. -/
theorem perm_ofList {entries : List (String × α)} (once : (keys entries).Nodup) :
    (ofList entries).Perm entries := by
  have sorted := sorted_ofList entries
  have apart (l : List (String × α)) (h : (keys l).Nodup) : l.Nodup :=
    List.Pairwise.of_map Prod.fst (fun _ _ differ same => differ (same ▸ rfl)) h
  rw [List.perm_ext_iff_of_nodup (apart _ (sorted.nodup_keys String.lt_irrefl)) (apart _ once)]
  rintro ⟨k, a⟩
  rw [← sorted.lookup_eq_some_iff String.lt_irrefl, lookup_ofList once]
  exact ⟨mem_of_lookup, lookup_of_mem_of_nodup once⟩

/-- Texts that are kept once each are in ascending order. -/
theorem pairwise_distinct (texts : List String) : (distinct texts).Pairwise (· < ·) :=
  (sorted_ofList _).keys

end Pipewright.Keyed
