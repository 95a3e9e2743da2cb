/-! # Keyed lists
Finite maps kept as lists of key and value pairs in ascending key order. Nodes of a graph, records
of a scene, operations of a registry and the entries of a script map are all stored this way, so
that the order in which they are shown is the order in which they are stored.

The main statements are the reading lemmas `lookup_insert_self` and `lookup_insert_of_ne`, which
need no hypothesis on the list, and `Sorted.insert`, which says that inserting keeps the order. -/

namespace Pipewright.Keyed

universe u v w

variable {κ : Type u} {α : Type v} {β : Type w}

/-- The value stored under a key. -/
def lookup [DecidableEq κ] (k : κ) : List (κ × α) → Option α
  | [] => none
  | (k', a) :: rest => if k = k' then some a else lookup k rest

/-- Store a value under a key, in key order, replacing the value that was there. -/
def insert [DecidableEq κ] [LT κ] [DecidableLT κ] (k : κ) (a : α) : List (κ × α) → List (κ × α)
  | [] => [(k, a)]
  | (k', a') :: rest =>
    if k < k' then (k, a) :: (k', a') :: rest
    else if k = k' then (k, a) :: rest
    else (k', a') :: insert k a rest

/-- Drop every entry stored under a key. -/
def erase [DecidableEq κ] (k : κ) (entries : List (κ × α)) : List (κ × α) :=
  entries.filter fun entry => decide (entry.1 ≠ k)

/-- Whether something is stored under a key. -/
def contains [DecidableEq κ] (k : κ) (entries : List (κ × α)) : Bool :=
  (lookup k entries).isSome

/-- Change the value stored under a key; nothing happens when there is none. -/
def modify [DecidableEq κ] (k : κ) (f : α → α) : List (κ × α) → List (κ × α)
  | [] => []
  | (k', a) :: rest => if k = k' then (k', f a) :: rest else (k', a) :: modify k f rest

/-- Change every stored value. -/
def mapValues (f : α → β) (entries : List (κ × α)) : List (κ × β) :=
  entries.map fun entry => (entry.1, f entry.2)

/-- Store the entries of a list one after another, so that later ones win. -/
def ofList [DecidableEq κ] [LT κ] [DecidableLT κ] (entries : List (κ × α)) : List (κ × α) :=
  entries.foldl (fun stored entry => insert entry.1 entry.2 stored) []

/-- The keys, in the order in which they are stored. -/
def keys (entries : List (κ × α)) : List κ := entries.map Prod.fst

/-- The items of a list, in ascending order and each once. -/
def distinct [DecidableEq κ] [LT κ] [DecidableLT κ] (items : List κ) : List κ :=
  keys (ofList (items.map fun k => (k, ())))

/-- Strictly ascending in the key, so no key is stored twice. -/
def Sorted [LT κ] (entries : List (κ × α)) : Prop :=
  entries.Pairwise fun a b => a.1 < b.1

section Lookup

variable [DecidableEq κ]

@[simp] theorem lookup_nil (k : κ) : lookup k ([] : List (κ × α)) = none := rfl

@[simp] theorem lookup_cons (k k' : κ) (a : α) (rest : List (κ × α)) :
    lookup k ((k', a) :: rest) = if k = k' then some a else lookup k rest := rfl

/-- What was stored last is found. -/
@[simp] theorem lookup_insert_self [LT κ] [DecidableLT κ] (k : κ) (a : α)
    (entries : List (κ × α)) : lookup k (insert k a entries) = some a := by
  induction entries with
  | nil => simp [insert]
  | cons entry rest ih =>
    obtain ⟨k', a'⟩ := entry
    by_cases h : k < k'
    · simp [insert, h]
    · by_cases e : k = k'
      · subst e
        simp [insert, h]
      · simp [insert, h, e, ih]

/-- Storing under one key leaves every other key as it was. -/
theorem lookup_insert_of_ne [LT κ] [DecidableLT κ] {j k : κ} (h : j ≠ k) (a : α)
    (entries : List (κ × α)) : lookup j (insert k a entries) = lookup j entries := by
  induction entries with
  | nil => simp [insert, h]
  | cons entry rest ih =>
    obtain ⟨k', a'⟩ := entry
    by_cases l : k < k'
    · simp [insert, l, h]
    · by_cases e : k = k'
      · subst e
        simp [insert, l, h]
      · by_cases j' : j = k' <;> simp [insert, l, e, ih, j']

/-- A dropped key is no longer found. -/
@[simp] theorem lookup_erase_self (k : κ) (entries : List (κ × α)) :
    lookup k (erase k entries) = none := by
  induction entries with
  | nil => rfl
  | cons entry rest ih =>
    obtain ⟨k', a'⟩ := entry
    by_cases e : k' = k
    · simpa [erase, e] using ih
    · have e' : ¬ k = k' := fun h => e h.symm
      simpa [erase, e, e'] using ih

/-- Dropping one key leaves every other key as it was. -/
theorem lookup_erase_of_ne {j k : κ} (h : j ≠ k) (entries : List (κ × α)) :
    lookup j (erase k entries) = lookup j entries := by
  induction entries with
  | nil => rfl
  | cons entry rest ih =>
    obtain ⟨k', a'⟩ := entry
    by_cases e : k' = k
    · subst e
      simpa [erase, h] using ih
    · by_cases j' : j = k'
      · simp [erase, e, j']
      · simpa [erase, e, j'] using ih

end Lookup

section Order

variable [DecidableEq κ] [LT κ] [DecidableLT κ]

/-- An entry after an insertion is the new one or was there before. -/
theorem mem_of_mem_insert {k : κ} {a : α} {entry : κ × α} {entries : List (κ × α)}
    (h : entry ∈ insert k a entries) : entry = (k, a) ∨ entry ∈ entries := by
  induction entries with
  | nil => simpa [insert] using h
  | cons first rest ih =>
    obtain ⟨k', a'⟩ := first
    by_cases l : k < k'
    · simpa [insert, l] using h
    · by_cases e : k = k'
      · subst e
        have h' : entry = (k, a) ∨ entry ∈ rest := by simpa [insert, l] using h
        exact h'.imp_right (List.mem_cons_of_mem _)
      · have h' : entry = (k', a') ∨ entry ∈ insert k a rest := by simpa [insert, l, e] using h
        rcases h' with rfl | h'
        · exact .inr List.mem_cons_self
        · exact (ih h').imp_right (List.mem_cons_of_mem _)

/-- Inserting keeps ascending order, for any order in which two different keys are comparable. -/
theorem Sorted.insert (trans : ∀ {a b c : κ}, a < b → b < c → a < c)
    (total : ∀ {a b : κ}, ¬ a < b → a ≠ b → b < a) {k : κ} {a : α} {entries : List (κ × α)}
    (h : Sorted entries) : Sorted (Keyed.insert k a entries) := by
  induction entries with
  | nil => simp [Keyed.insert, Sorted]
  | cons first rest ih =>
    obtain ⟨k', a'⟩ := first
    obtain ⟨below, sorted⟩ := List.pairwise_cons.1 h
    by_cases l : k < k'
    · simp only [Keyed.insert, l, if_true]
      refine List.pairwise_cons.2 ⟨fun entry m => ?_, h⟩
      rcases List.mem_cons.1 m with rfl | m
      · exact l
      · exact trans l (below _ m)
    · by_cases e : k = k'
      · subst e
        simp only [Keyed.insert, l, if_true, if_false]
        exact List.pairwise_cons.2 ⟨below, sorted⟩
      · simp only [Keyed.insert, l, e, if_false]
        refine List.pairwise_cons.2 ⟨fun entry m => ?_, ih sorted⟩
        rcases mem_of_mem_insert m with rfl | m
        · exact total l e
        · exact below _ m

end Order

end Pipewright.Keyed
