/-! # Texts that can be told from what follows
Texts of items that are written one behind the other can be told apart again if the text of an item
and what follows it, which starts with a delimiter, leave no choice. Then this also holds for items
with commas between them that are closed by a delimiter. -/

namespace Pipewright.Text

universe u

variable {α : Type u}

/-- What stands behind an item that is shown: a comma, a colon or what closes the surrounding. -/
def isDelimiter (c : Char) : Bool := c == ',' || c == ':' || c == ']' || c == ')' || c == '\x7d'

/-- A text that ends what stands in front of it: it starts with a delimiter, or nothing is left. -/
def Ends (rest : List Char) : Prop := ∀ c ∈ rest.head?, isDelimiter c = true

/-- A delimiter ends what stands in front of it. -/
theorem ends_cons {c : Char} (delimiter : isDelimiter c = true) (rest : List Char) :
    Ends (c :: rest) := by
  intro d m
  cases Option.mem_some.1 m
  exact delimiter

/-- Nothing ends what stands in front of it. -/
theorem ends_nil : Ends [] := fun _ m => absurd m (Option.not_mem_none _)

/-- Where two items are shown alike, each with what ends it, they are the same and so is what ends
them. -/
def Apart (shown : α → List Char) (a b : α) : Prop :=
  ∀ rest rest', Ends rest → Ends rest' → shown a ++ rest = shown b ++ rest' → a = b ∧ rest = rest'

/-- Texts that end before a delimiter, in front of delimiters, are told apart. -/
theorem append_inj_of_plain {text text' rest rest' : List Char}
    (plain : ∀ c ∈ text, isDelimiter c = false) (plain' : ∀ c ∈ text', isDelimiter c = false)
    (ends : Ends rest) (ends' : Ends rest') (h : text ++ rest = text' ++ rest') :
    text = text' ∧ rest = rest' := by
  induction text generalizing text' with
  | nil =>
    cases text' with
    | nil => exact ⟨rfl, h⟩
    | cons c text' =>
      have delimiter := ends c (by rw [List.nil_append] at h; rw [h]; rfl)
      rw [plain' c List.mem_cons_self] at delimiter
      cases delimiter
  | cons c text ih =>
    cases text' with
    | nil =>
      have delimiter := ends' c (by rw [List.nil_append] at h; rw [← h]; rfl)
      rw [plain c List.mem_cons_self] at delimiter
      cases delimiter
    | cons d text' =>
      obtain ⟨rfl, behind⟩ := List.cons.inj h
      obtain ⟨rfl, same⟩ := ih (fun d m => plain d (List.mem_cons_of_mem _ m))
        (fun d m => plain' d (List.mem_cons_of_mem _ m)) behind
      exact ⟨rfl, same⟩

/-! ## Sequences -/

/-- Items that are shown behind another one, a comma in front of each. -/
def showMore (shown : α → List Char) (items : List α) : List Char :=
  items.flatMap fun item => ',' :: ' ' :: shown item

/-- Items that are shown with commas between them. -/
def showItems (shown : α → List Char) : List α → List Char
  | [] => []
  | item :: items => shown item ++ showMore shown items

/-- Further items are a comma away or closed. -/
theorem ends_showMore (shown : α → List Char) (items : List α) {close : Char}
    (delimiter : isDelimiter close = true) (rest : List Char) :
    Ends (showMore shown items ++ close :: rest) := by
  cases items with
  | nil => exact ends_cons delimiter rest
  | cons item items => exact ends_cons (by decide) _

variable {shown : α → List Char} {items items' : List α} {close : Char} {rest rest' : List Char}

/-- Items that are shown behind another one and closed are told apart. -/
theorem showMore_inj (delimiter : isDelimiter close = true) (comma : close ≠ ',')
    (apart : ∀ a ∈ items, ∀ b ∈ items', Apart shown a b)
    (h : showMore shown items ++ close :: rest = showMore shown items' ++ close :: rest') :
    items = items' ∧ rest = rest' := by
  induction items generalizing items' with
  | nil =>
    cases items' with
    | nil => exact ⟨rfl, (List.cons.inj h).2⟩
    | cons b items' => exact absurd (List.cons.inj h).1 comma
  | cons a items ih =>
    cases items' with
    | nil => exact absurd (List.cons.inj h).1.symm comma
    | cons b items' =>
      have behind : shown a ++ (showMore shown items ++ close :: rest) =
          shown b ++ (showMore shown items' ++ close :: rest') := by
        simpa [showMore] using h
      obtain ⟨rfl, more⟩ := apart a List.mem_cons_self b List.mem_cons_self _ _
        (ends_showMore shown items delimiter rest) (ends_showMore shown items' delimiter rest') behind
      obtain ⟨rfl, same⟩ := ih (fun a m b m' =>
        apart a (List.mem_cons_of_mem _ m) b (List.mem_cons_of_mem _ m')) more
      exact ⟨rfl, same⟩

/-- Items that are shown with commas between them and closed are told apart, if none of them starts
with what closes them. -/
theorem showItems_inj (delimiter : isDelimiter close = true) (comma : close ≠ ',')
    (apart : ∀ a ∈ items, ∀ b ∈ items', Apart shown a b)
    (opens : ∀ a behind rest, shown a ++ behind ≠ close :: rest)
    (h : showItems shown items ++ close :: rest = showItems shown items' ++ close :: rest') :
    items = items' ∧ rest = rest' := by
  cases items with
  | nil =>
    cases items' with
    | nil => exact ⟨rfl, (List.cons.inj h).2⟩
    | cons b items' =>
      rw [showItems, showItems, List.append_assoc] at h
      exact absurd h.symm (opens b _ _)
  | cons a items =>
    cases items' with
    | nil =>
      rw [showItems, showItems, List.append_assoc] at h
      exact absurd h (opens a _ _)
    | cons b items' =>
      rw [showItems, showItems, List.append_assoc, List.append_assoc] at h
      obtain ⟨rfl, more⟩ := apart a List.mem_cons_self b List.mem_cons_self _ _
        (ends_showMore shown items delimiter rest) (ends_showMore shown items' delimiter rest') h
      obtain ⟨rfl, same⟩ := showMore_inj delimiter comma (fun a m b m' =>
        apart a (List.mem_cons_of_mem _ m) b (List.mem_cons_of_mem _ m')) more
      exact ⟨rfl, same⟩

end Pipewright.Text
