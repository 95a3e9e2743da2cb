import Pipewright.Proofs.DataType.Document
import Pipewright.Proofs.Json.Numbers

/-! # Texts of types and literals there and back
A type is read from its text, with its classes, its fields and its annotations as they were, and so
is a literal. Two things are needed for that: the brackets are nested no deeper than the reader
goes, and the floating-point numbers are read as what was written. -/

namespace Pipewright

open Json (tagged enter? maxDepth)

/-! ## Nesting -/

namespace Json

mutual

/-- How deep the brackets of a document are nested. -/
def depth : Json → Nat
  | .array items => depthOfItems items + 1
  | .object entries => depthOfEntries entries + 1
  | _ => 0

/-- How deep the brackets of a list of documents are nested. -/
def depthOfItems : List Json → Nat
  | [] => 0
  | item :: items => max (depth item) (depthOfItems items)

/-- How deep the brackets of a list of entries are nested. -/
def depthOfEntries : List (String × Json) → Nat
  | [] => 0
  | (_, value) :: entries => max (depth value) (depthOfEntries entries)

end

/-- A constructor adds one bracket to those of its arguments. -/
@[simp] theorem depth_tagged (tag : String) (body : Json) :
    (tagged tag body).depth = body.depth + 1 := by
  simp [tagged, depth, depthOfEntries]

/-- The brackets of an array are one more than those of its deepest item. -/
@[simp] theorem depth_array (items : List Json) :
    (Json.array items).depth = depthOfItems items + 1 := rfl

/-- The first item and the others are nested as deep as the list. -/
@[simp] theorem depthOfItems_cons (item : Json) (items : List Json) :
    depthOfItems (item :: items) = max item.depth (depthOfItems items) := rfl

end Json

/-! ## Floating-point numbers -/

namespace Value

mutual

/-- The floating-point numbers in a literal. -/
def floats : Value → List Float
  | .float x => [x]
  | .list items => floatsOfItems items
  | .tuple items => floatsOfItems items
  | .dict pairs => floatsOfPairs pairs
  | _ => []

/-- The floating-point numbers in a list of literals. -/
def floatsOfItems : List Value → List Float
  | [] => []
  | item :: items => floats item ++ floatsOfItems items

/-- The floating-point numbers in a list of pairs. -/
def floatsOfPairs : List (Value × Value) → List Float
  | [] => []
  | (k, v) :: pairs => floats k ++ floats v ++ floatsOfPairs pairs

end

end Value

/-- The floating-point numbers in an annotation. -/
def Annotation.floats (a : Annotation) : List Float := a.arguments.flatMap Value.floats

namespace DataType

mutual

/-- The floating-point numbers in the annotations of a type. -/
def floats : DataType → List Float
  | .list item => floats item
  | .dict key value => floats key ++ floats value
  | .tuple items => floatsOfItems items
  | .pack _ fields => floatsOfFields fields
  | .annotated inner annotations => floats inner ++ annotations.flatMap Annotation.floats
  | _ => []

/-- The floating-point numbers in a list of types. -/
def floatsOfItems : List DataType → List Float
  | [] => []
  | item :: items => floats item ++ floatsOfItems items

/-- The floating-point numbers in a list of fields. -/
def floatsOfFields : List (String × DataType) → List Float
  | [] => []
  | (_, t) :: fields => floats t ++ floatsOfFields fields

end

end DataType

/-! ## Literals -/

/-- A word is the word of its number. -/
theorem word?_toInt (n : Int64) : word? n.toInt = some n := by
  have low := Int64.le_toInt n
  have high := Int64.toInt_lt n
  have bound : signedBound = 9223372036854775808 := rfl
  unfold word?
  rw [if_pos, Int64.ofInt_toInt]
  rw [Bool.and_eq_true, decide_eq_true_eq, decide_eq_true_eq]
  omega

namespace Value

mutual

/-- A literal is read from its document where there is room for its brackets. -/
theorem ofJson?_toJson : (v : Value) → {room : Nat} → v.toJson.depth ≤ room →
    ofJson? room v.toJson = some v
  | .int n, room + 1, _ => by
    show (word? n.toInt).map Value.int = _
    rw [word?_toInt, Option.map_some]
  | .float x, room + 1, _ => rfl
  | .str text, room + 1, _ => rfl
  | .bool b, room + 1, _ => rfl
  | .list items, room + 2, h => by
    have deep : Json.depthOfItems (toJsonItems items) ≤ room := by simpa [toJson] using h
    show (ofJsonItems? room (toJsonItems items)).map Value.list = _
    rw [ofJsonItems?_toJsonItems items deep, Option.map_some]
  | .tuple items, room + 2, h => by
    have deep : Json.depthOfItems (toJsonItems items) ≤ room := by simpa [toJson] using h
    show (ofJsonItems? room (toJsonItems items)).map Value.tuple = _
    rw [ofJsonItems?_toJsonItems items deep, Option.map_some]
  | .dict pairs, room + 2, h => by
    have deep : Json.depthOfItems (toJsonPairs pairs) ≤ room := by simpa [toJson] using h
    show (ofJsonPairs? room (toJsonPairs pairs)).map Value.dict = _
    rw [ofJsonPairs?_toJsonPairs pairs deep, Option.map_some]

/-- Literals are read from their documents. -/
theorem ofJsonItems?_toJsonItems : (items : List Value) → {room : Nat} →
    Json.depthOfItems (toJsonItems items) ≤ room →
      ofJsonItems? room (toJsonItems items) = some items
  | [], _, _ => rfl
  | item :: items, room, h => by
    have deep : max item.toJson.depth (Json.depthOfItems (toJsonItems items)) ≤ room := h
    show (ofJson? room item.toJson).bind (fun v =>
      (ofJsonItems? room (toJsonItems items)).bind fun vs => some (v :: vs)) = _
    rw [ofJson?_toJson item (by omega), Option.bind_some,
      ofJsonItems?_toJsonItems items (by omega), Option.bind_some]

/-- Pairs are read from their documents. -/
theorem ofJsonPairs?_toJsonPairs : (pairs : List (Value × Value)) → {room : Nat} →
    Json.depthOfItems (toJsonPairs pairs) ≤ room →
      ofJsonPairs? room (toJsonPairs pairs) = some pairs
  | [], _, _ => rfl
  | (k, v) :: pairs, room, h => by
    have deep : max (max k.toJson.depth (max v.toJson.depth 0) + 1)
      (Json.depthOfItems (toJsonPairs pairs)) ≤ room := h
    obtain ⟨inner, rfl⟩ : ∃ inner, room = inner + 1 := ⟨room - 1, by omega⟩
    show (ofJson? inner k.toJson).bind (fun k => (ofJson? inner v.toJson).bind fun v =>
      (ofJsonPairs? (inner + 1) (toJsonPairs pairs)).bind fun pairs => some ((k, v) :: pairs)) = _
    rw [ofJson?_toJson k (by omega), Option.bind_some, ofJson?_toJson v (by omega),
      Option.bind_some, ofJsonPairs?_toJsonPairs pairs (by omega), Option.bind_some]

end

end Value

/-! ## Annotations and types -/

namespace Annotation

/-- An annotation is read from its document. -/
theorem ofJson?_toJson (a : Annotation) {room : Nat} (h : a.toJson.depth ≤ room) :
    ofJson? room a.toJson = some a := by
  obtain ⟨room, rfl⟩ : ∃ room', room = room' + 1 := by
    have some' : 0 < a.toJson.depth := by cases a <;> simp [toJson]
    exact ⟨room - 1, by omega⟩
  cases a with
  | decimals places =>
    show (word? places.toInt).map Annotation.decimals = _
    rw [word?_toInt, Option.map_some]
  | withinRange low high =>
    have deep : max low.toJson.depth (max high.toJson.depth 0) + 1 + 1 ≤ room + 1 := by
      simpa [toJson, Json.depthOfItems] using h
    obtain ⟨inner, rfl⟩ : ∃ inner, room = inner + 1 := ⟨room - 1, by omega⟩
    show (Value.ofJson? inner low.toJson).bind (fun low =>
      (Value.ofJson? inner high.toJson).bind fun high => some <| Annotation.withinRange low high) = _
    rw [low.ofJson?_toJson (by omega), Option.bind_some, high.ofJson?_toJson (by omega),
      Option.bind_some]
  | minimum v =>
    show (Value.ofJson? room v.toJson).map Annotation.minimum = _
    rw [v.ofJson?_toJson (by simpa [toJson] using h), Option.map_some]
  | maximum v =>
    show (Value.ofJson? room v.toJson).map Annotation.maximum = _
    rw [v.ofJson?_toJson (by simpa [toJson] using h), Option.map_some]
  | default v =>
    show (Value.ofJson? room v.toJson).map Annotation.default = _
    rw [v.ofJson?_toJson (by simpa [toJson] using h), Option.map_some]
  | singleStep v =>
    show (Value.ofJson? room v.toJson).map Annotation.singleStep = _
    rw [v.ofJson?_toJson (by simpa [toJson] using h), Option.map_some]

/-- Annotations are read from their documents. -/
theorem mapM_ofJson?_toJson (as : List Annotation) {room : Nat}
    (h : Json.depthOfItems (as.map toJson) ≤ room) :
    (as.map toJson).mapM (fun document => ofJson? room document) = some as := by
  induction as with
  | nil => rfl
  | cons a as ih =>
    have deep : max a.toJson.depth (Json.depthOfItems (as.map toJson)) ≤ room := h
    rw [List.map_cons, List.mapM_cons, a.ofJson?_toJson (by omega), ih (by omega)]
    rfl

end Annotation

namespace DataType

mutual

/-- A type is read from its document where there is room for its brackets. -/
theorem ofJson?_toJson : (t : DataType) → {room : Nat} → t.toJson.depth ≤ room →
    ofJson? room t.toJson = some t
  | .unit, _, _ => rfl
  | .int, _, _ => rfl
  | .float, _, _ => rfl
  | .str, _, _ => rfl
  | .bool, _, _ => rfl
  | .progress, _, _ => rfl
  | .list item, room + 1, h => by
    show (ofJson? room item.toJson).map DataType.list = _
    rw [ofJson?_toJson item (by simpa [toJson] using h), Option.map_some]
  | .dict key value, room + 2, h => by
    have deep : max key.toJson.depth (max value.toJson.depth 0) + 1 + 1 ≤ room + 2 := by
      simpa [toJson, Json.depthOfItems] using h
    show (ofJson? room key.toJson).bind (fun key =>
      (ofJson? room value.toJson).bind fun value => some (DataType.dict key value)) = _
    rw [ofJson?_toJson key (by omega), Option.bind_some, ofJson?_toJson value (by omega),
      Option.bind_some]
  | .tuple items, room + 2, h => by
    show (ofJsonItems? room (toJsonItems items)).map DataType.tuple = _
    rw [ofJsonItems?_toJsonItems items (by simpa [toJson] using h), Option.map_some]
  | .node c, room + 3, h => by
    show (NodeClass.ofJson? (room + 2) c.toJson).map DataType.node = _
    rw [c.ofJson?_toJson, Option.map_some]
  | .pack name fields, room + 3, h => by
    have deep : Json.depthOfItems (toJsonFields fields) + 1 + 1 + 1 ≤ room + 3 := by
      simpa [toJson, Json.depth, Json.depthOfEntries] using h
    have entries : ofJsonEntries? (room + 1)
        [("name", .str name), ("fields", .array (toJsonFields fields))] = some [fields] := by
      show (ofJsonFields? room (toJsonFields fields)).bind (fun fields => some [fields]) = _
      rw [ofJsonFields?_toJsonFields fields (by omega), Option.bind_some]
    show (ofJsonEntries? (room + 1)
      [("name", .str name), ("fields", .array (toJsonFields fields))]).bind (fun found =>
        match found with
        | [fields] => some (DataType.pack name fields)
        | _ => none) = _
    rw [entries, Option.bind_some]
  | .annotated inner as, room + 2, h => by
    have deep : max inner.toJson.depth (max (Json.depthOfItems (as.map Annotation.toJson) + 1) 0) +
        1 + 1 ≤ room + 2 := by
      simpa [toJson, Json.depthOfItems] using h
    obtain ⟨below, rfl⟩ : ∃ below, room = below + 1 := ⟨room - 1, by omega⟩
    show ((as.map Annotation.toJson).mapM fun document => Annotation.ofJson? below document).bind
      (fun as => (ofJson? (below + 1) inner.toJson).bind fun inner =>
        some (DataType.annotated inner as)) = _
    have shallow : Json.depthOfItems (as.map Annotation.toJson) ≤ below := by omega
    have read := Annotation.mapM_ofJson?_toJson as shallow
    rw [read, Option.bind_some, ofJson?_toJson inner (by omega), Option.bind_some]
  | .external name, room + 1, _ => rfl

/-- Types are read from their documents. -/
theorem ofJsonItems?_toJsonItems : (items : List DataType) → {room : Nat} →
    Json.depthOfItems (toJsonItems items) ≤ room →
      ofJsonItems? room (toJsonItems items) = some items
  | [], _, _ => rfl
  | item :: items, room, h => by
    have deep : max item.toJson.depth (Json.depthOfItems (toJsonItems items)) ≤ room := h
    show (ofJson? room item.toJson).bind (fun t =>
      (ofJsonItems? room (toJsonItems items)).bind fun ts => some (t :: ts)) = _
    rw [ofJson?_toJson item (by omega), Option.bind_some,
      ofJsonItems?_toJsonItems items (by omega), Option.bind_some]

/-- Fields are read from their documents. -/
theorem ofJsonFields?_toJsonFields : (fields : List (String × DataType)) → {room : Nat} →
    Json.depthOfItems (toJsonFields fields) ≤ room →
      ofJsonFields? room (toJsonFields fields) = some fields
  | [], _, _ => rfl
  | (name, t) :: fields, room, h => by
    have deep : max (max 0 (max t.toJson.depth 0) + 1)
      (Json.depthOfItems (toJsonFields fields)) ≤ room := h
    obtain ⟨inner, rfl⟩ : ∃ inner, room = inner + 1 := ⟨room - 1, by omega⟩
    show (ofJson? inner t.toJson).bind (fun t =>
      (ofJsonFields? (inner + 1) (toJsonFields fields)).bind fun fields =>
        some ((name, t) :: fields)) = _
    rw [ofJson?_toJson t (by omega), Option.bind_some,
      ofJsonFields?_toJsonFields fields (by omega), Option.bind_some]

end

end DataType

/-! ## Numbers -/

/-- A constructor has the numbers of its arguments. -/
theorem Json.numbers_tagged (tag : String) (body : Json) :
    Json.numbers (tagged tag body) = Json.numbers body := List.append_nil _

namespace Value

mutual

/-- The numbers of a literal are read back if its floating-point numbers are. -/
theorem kept_numbers : (v : Value) → (∀ x ∈ v.floats, (JsonNumber.real x).Kept) →
    ∀ n ∈ Json.numbers v.toJson, n.Kept
  | .int k, _, n, m => by
    obtain rfl := List.mem_singleton.1 m
    exact JsonNumber.kept_whole k
  | .float x, kept, n, m => by
    obtain rfl := List.mem_singleton.1 m
    exact kept x (List.mem_singleton_self x)
  | .list items, kept, n, m => by
    rw [toJson, Json.numbers_tagged] at m
    exact kept_numbersOfItems items kept n m
  | .tuple items, kept, n, m => by
    rw [toJson, Json.numbers_tagged] at m
    exact kept_numbersOfItems items kept n m
  | .dict pairs, kept, n, m => by
    rw [toJson, Json.numbers_tagged] at m
    exact kept_numbersOfPairs pairs kept n m

/-- The numbers of a list of literals are read back if their floating-point numbers are. -/
theorem kept_numbersOfItems : (items : List Value) →
    (∀ x ∈ floatsOfItems items, (JsonNumber.real x).Kept) →
      ∀ n ∈ Json.numbersOfItems (toJsonItems items), n.Kept
  | item :: items, kept, n, m => (List.mem_append.1 m).elim
    (kept_numbers item (fun x m => kept x (List.mem_append_left _ m)) n)
    (kept_numbersOfItems items (fun x m => kept x (List.mem_append_right _ m)) n)

/-- The numbers of a list of pairs are read back if their floating-point numbers are. -/
theorem kept_numbersOfPairs : (pairs : List (Value × Value)) →
    (∀ x ∈ floatsOfPairs pairs, (JsonNumber.real x).Kept) →
      ∀ n ∈ Json.numbersOfItems (toJsonPairs pairs), n.Kept
  | (k, v) :: pairs, kept, n, m => by
    have parts : n ∈ Json.numbers k.toJson ++ (Json.numbers v.toJson ++ []) ++
      Json.numbersOfItems (toJsonPairs pairs) := m
    rw [List.append_nil, List.mem_append, List.mem_append] at parts
    have each : ∀ x, x ∈ k.floats ∨ x ∈ v.floats ∨ x ∈ floatsOfPairs pairs →
        (JsonNumber.real x).Kept := fun x m => kept x (by simpa [floatsOfPairs, or_assoc] using m)
    obtain (m | m) | m := parts
    · exact kept_numbers k (fun x m => each x (.inl m)) n m
    · exact kept_numbers v (fun x m => each x (.inr (.inl m))) n m
    · exact kept_numbersOfPairs pairs (fun x m => each x (.inr (.inr m))) n m

end

end Value

/-- The numbers of an annotation are read back if its floating-point numbers are. -/
theorem Annotation.kept_numbers (a : Annotation) (kept : ∀ x ∈ a.floats, (JsonNumber.real x).Kept) :
    ∀ n ∈ Json.numbers a.toJson, n.Kept := by
  have each : ∀ v ∈ a.arguments, ∀ n ∈ Json.numbers v.toJson, n.Kept := fun v m =>
    v.kept_numbers fun x m' => kept x (List.mem_flatMap.2 ⟨v, m, m'⟩)
  intro n m
  cases a with
  | withinRange low high =>
    have parts : n ∈ Json.numbers low.toJson ++ (Json.numbers high.toJson ++ []) ++ [] := m
    rw [List.append_nil, List.append_nil, List.mem_append] at parts
    exact parts.elim (each low (by simp [arguments]) n) (each high (by simp [arguments]) n)
  | decimals places =>
    obtain rfl := List.mem_singleton.1 m
    exact JsonNumber.kept_whole places
  | minimum v | maximum v | default v | singleStep v =>
    rw [toJson, Json.numbers_tagged] at m
    exact each v List.mem_cons_self n m

namespace DataType

mutual

/-- The numbers of a type are read back if its floating-point numbers are. -/
theorem kept_numbers : (t : DataType) → (∀ x ∈ t.floats, (JsonNumber.real x).Kept) →
    ∀ n ∈ Json.numbers t.toJson, n.Kept
  | .list item, kept, n, m => by
    rw [toJson, Json.numbers_tagged] at m
    exact kept_numbers item kept n m
  | .dict key value, kept, n, m => by
    have parts : n ∈ Json.numbers key.toJson ++ (Json.numbers value.toJson ++ []) ++ [] := m
    rw [List.append_nil, List.append_nil, List.mem_append] at parts
    exact parts.elim (kept_numbers key (fun x m => kept x (List.mem_append_left _ m)) n)
      (kept_numbers value (fun x m => kept x (List.mem_append_right _ m)) n)
  | .tuple items, kept, n, m => by
    rw [toJson, Json.numbers_tagged] at m
    exact kept_numbersOfItems items kept n m
  | .node c, _, n, m => by
    have none : ∀ names : List String, Json.numbersOfItems (names.map Json.str) = [] := by
      intro names
      induction names with
      | nil => rfl
      | cons name names ih => exact ih
    simp [toJson, NodeClass.toJson, Json.numbers_tagged, Json.numbers, Json.numbersOfEntries,
      none] at m
  | .pack name fields, kept, n, m => by
    have parts : n ∈ [] ++ (Json.numbersOfItems (toJsonFields fields) ++ []) ++ [] := m
    rw [List.append_nil, List.append_nil, List.nil_append] at parts
    exact kept_numbersOfFields fields kept n parts
  | .annotated inner as, kept, n, m => by
    have parts : n ∈ Json.numbers inner.toJson ++
      (Json.numbersOfItems (as.map Annotation.toJson) ++ []) ++ [] := m
    rw [List.append_nil, List.append_nil, List.mem_append] at parts
    refine parts.elim (kept_numbers inner (fun x m => kept x (List.mem_append_left _ m)) n) ?_
    have each : ∀ a ∈ as, ∀ n ∈ Json.numbers a.toJson, n.Kept := fun a m => a.kept_numbers
      fun x m' => kept x (List.mem_append_right _ (List.mem_flatMap.2 ⟨a, m, m'⟩))
    clear kept m parts
    induction as with
    | nil => exact fun m => absurd m List.not_mem_nil
    | cons a as ih =>
      exact fun m => (List.mem_append.1 m).elim (each a List.mem_cons_self n)
        (ih fun b m => each b (List.mem_cons_of_mem _ m))

/-- The numbers of a list of types are read back if their floating-point numbers are. -/
theorem kept_numbersOfItems : (items : List DataType) →
    (∀ x ∈ floatsOfItems items, (JsonNumber.real x).Kept) →
      ∀ n ∈ Json.numbersOfItems (toJsonItems items), n.Kept
  | item :: items, kept, n, m => (List.mem_append.1 m).elim
    (kept_numbers item (fun x m => kept x (List.mem_append_left _ m)) n)
    (kept_numbersOfItems items (fun x m => kept x (List.mem_append_right _ m)) n)

/-- The numbers of a list of fields are read back if their floating-point numbers are. -/
theorem kept_numbersOfFields : (fields : List (String × DataType)) →
    (∀ x ∈ floatsOfFields fields, (JsonNumber.real x).Kept) →
      ∀ n ∈ Json.numbersOfItems (toJsonFields fields), n.Kept
  | (name, t) :: fields, kept, n, m => by
    have parts : n ∈ [] ++ (Json.numbers t.toJson ++ []) ++
      Json.numbersOfItems (toJsonFields fields) := m
    rw [List.append_nil, List.nil_append, List.mem_append] at parts
    exact parts.elim (kept_numbers t (fun x m => kept x (List.mem_append_left _ m)) n)
      (kept_numbersOfFields fields (fun x m => kept x (List.mem_append_right _ m)) n)

end

end DataType

/-! ## Texts -/

/-- Floating-point numbers that are finite and, being so, are read as what was written. -/
structure FloatsKept (xs : List Float) : Prop where
  /-- They are finite. -/
  finite : ∀ x ∈ xs, Decimal.Finite x
  /-- Those that are finite are read from their texts. -/
  kept : ∀ x ∈ xs, Decimal.Finite x → (JsonNumber.real x).Kept

/-- The document of a type is read from the text of the type. -/
theorem DataType.parse?_toText {t : DataType} (h : FloatsKept t.floats) :
    Json.parse? t.toText = some t.toJson :=
  Json.parse?_compact fun n m =>
    (t.kept_numbers (fun x m => h.kept x m (h.finite x m)) n m).readsBack

/-- The document of a literal is read from the text of the literal. -/
theorem Value.parse?_toText {v : Value} (h : FloatsKept v.floats) :
    Json.parse? v.toText = some v.toJson :=
  Json.parse?_compact fun n m =>
    (v.kept_numbers (fun x m => h.kept x m (h.finite x m)) n m).readsBack

/-- Types and literals are read from their texts as what they were, if their floating-point numbers
are finite and the reader goes as deep as they are nested. So different types have different
texts, however deep they are nested. -/
theorem DataType.ofText?_toText :
    (∀ t : DataType, FloatsKept t.floats → t.toJson.depth ≤ maxDepth →
      ofText? t.toText = some t) ∧
    (∀ v : Value, FloatsKept v.floats → v.toJson.depth ≤ maxDepth →
      Value.ofText? v.toText = some v) ∧
    ∀ t t' : DataType, FloatsKept t.floats → FloatsKept t'.floats → t.toText = t'.toText →
      t = t' := by
  refine ⟨fun t h deep => ?_, fun v h deep => ?_, fun t t' h h' same => ?_⟩
  · unfold ofText?
    rw [parse?_toText h, Option.bind_some, t.ofJson?_toJson deep]
  · unfold Value.ofText?
    rw [Value.parse?_toText h, Option.bind_some, v.ofJson?_toJson deep]
  · -- one text has one document, and a document of one type is not that of another
    have one : t.toJson = t'.toJson := by
      have read := parse?_toText h
      rw [same, parse?_toText h'] at read
      exact (Option.some.inj read).symm
    have read := t.ofJson?_toJson (Nat.le_refl _)
    rw [one, t'.ofJson?_toJson (Nat.le_refl _)] at read
    exact (Option.some.inj read).symm

namespace DataType

/-- Sizes between one and one and a half, `default` being the first annotation or the last. -/
def sizes (first : Bool) : DataType :=
  let usual : Annotation := .default (.float 1.5)
  let range : Annotation := .withinRange (.int 1) (.float 1.5)
  .annotated .float (if first then [usual, range] else [range, usual])

/-- A pack in which a name occurs twice, once for a node. -/
def sizedPack (first : Bool) : DataType :=
  .pack "sized \"thing\"" [("part", .node (.derived "Ball" .root)), ("part", .list (sizes first))]

/-- A pair of a text and a list of numbers. -/
def sizedValue : Value := .dict [(.str "a\nb", .list [.float 1.5, .int (-3)])]

/-- A pack with annotations and a literal are read from their texts, and annotations in another
order make another text. -/
theorem ofText?_toText_sized :
    ofText? (sizedPack true).toText = some (sizedPack true) ∧
      Value.ofText? sizedValue.toText = some sizedValue ∧
        (sizedPack true).toText ≠ (sizedPack false).toText := by
  have finite : Decimal.Finite 1.5 := ⟨by decide +kernel, by decide +kernel⟩
  have kept : (JsonNumber.real 1.5).Kept := rfl
  have all : ∀ xs : List Float, (∀ x ∈ xs, x = 1.5) → FloatsKept xs := fun xs same =>
    ⟨fun x m => same x m ▸ finite, fun x m _ => same x m ▸ kept⟩
  have pack : ∀ first, FloatsKept (sizedPack first).floats := fun first => all _ fun x m => by
    have parts : x ∈ [1.5, 1.5] := by cases first <;> exact m
    simpa using parts
  have value : FloatsKept sizedValue.floats := all _ fun x m => List.mem_singleton.1 m
  obtain ⟨types, values, apart⟩ := ofText?_toText
  refine ⟨types _ (pack true) (by decide), values _ value (by decide), fun same => ?_⟩
  have e := apart _ _ (pack true) (pack false) same
  simp [sizedPack, sizes] at e

end DataType

end Pipewright
