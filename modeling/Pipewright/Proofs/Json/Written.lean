import Pipewright.Json.Reader

/-! # Documents there and back
The compact text of a document is read as the document, as long as its numbers are read back. -/

namespace Pipewright

/-- What can stand behind a value in a document, if anything does: a comma or a closing bracket. -/
def Json.EndsValue (rest : List Char) : Prop :=
  ∀ c ∈ rest.head?, c = ',' ∨ c = ']' ∨ c = '\x7d'

/-- A number is read from its text, whatever can stand behind it. -/
def JsonNumber.ReadsBack (n : JsonNumber) : Prop :=
  ∀ rest, Json.EndsValue rest → Json.readNumber? (Json.writeNumber n ++ rest) = some (n, rest)

namespace Json

variable {cs rest : List Char} {c : Char} {fuel : Nat}

/-! ## Texts -/

/-- The number of a control character is read from its four digits. -/
theorem fourHexValue?_control : ∀ n < 32, fourHexValue? (Nat.digitChar (n / 4096 % 16))
    (Nat.digitChar (n / 256 % 16)) (Nat.digitChar (n / 16 % 16)) (Nat.digitChar (n % 16)) =
      some n := by decide

/-- A character is read from what stands for it in quotes. -/
theorem readQuoted?_escape (c : Char) (rest : List Char) :
    readQuoted? (escape c ++ rest) =
      (readQuoted? rest).map fun (text, rest) => (c :: text, rest) := by
  unfold escape
  split
  · subst_vars
    rfl
  split
  · subst_vars
    rfl
  split
  · subst_vars
    rfl
  split
  · subst_vars
    rfl
  split
  · subst_vars
    rfl
  split
  · subst_vars
    rfl
  split
  · subst_vars
    rfl
  split
  · next control =>
    -- a control character that has no letter of its own stands as its number
    have digits := fourHexValue?_control c.toNat control
    have same : Char.ofNat c.toNat = c := Char.ofNat_toNat c
    unfold fourHexDigits
    simp only [List.cons_append, List.nil_append]
    rw [readQuoted?, digits]
    simp only [same, Bool.or_eq_true, decide_eq_true_eq]
    rw [if_pos (by omega)]
  · next quote backslash _ _ _ _ _ plain =>
    -- any other character stands as it is, and starts neither an escape nor the closing quote
    rw [List.singleton_append]
    conv => lhs; unfold readQuoted?
    split
    · next same => cases same
    · next same => exact absurd (List.cons.inj same).1 quote
    · next same => exact absurd (List.cons.inj same).1 backslash
    · next same => exact absurd (List.cons.inj same).1 backslash
    · next same =>
      cases same
      rw [if_neg (by simp [plain, backslash])]

/-- A text is read from quotes. -/
theorem readQuoted?_quoted (cs rest : List Char) :
    readQuoted? (cs.flatMap escape ++ '"' :: rest) = some (cs, rest) := by
  induction cs with
  | nil =>
    unfold readQuoted?
    rfl
  | cons c cs ih =>
    rw [List.flatMap_cons, List.append_assoc, readQuoted?_escape, ih]
    rfl

/-! ## What starts a value -/

/-- A character with which a value can start: no blank, and no bracket that closes something. -/
def startsValue (c : Char) : Bool :=
  c != ' ' && c != '\n' && c != '\t' && c != '\r' && c != ']' && c != '\x7d'

/-- No blanks are dropped in front of a value. -/
theorem skipBlanks_value (starts : startsValue c = true) (rest : List Char) :
    skipBlanks (c :: rest) = c :: rest := by
  unfold skipBlanks
  refine if_neg ?_
  simp only [startsValue, Bool.and_eq_true, bne_iff_ne] at starts
  simp [starts.1.1.1.1.1, starts.1.1.1.1.2, starts.1.1.1.2, starts.1.1.2]

/-- A number starts with a digit or a sign. -/
theorem exists_of_readNumber? {r : JsonNumber × List Char} (h : readNumber? cs = some r) :
    ∃ c rest, cs = c :: rest ∧ (c = '-' ∨ c.isDigit = true) := by
  cases cs with
  | nil => cases h
  | cons c rest =>
    refine ⟨c, rest, rfl, ?_⟩
    by_cases sign : c = '-'
    · exact .inl sign
    · right
      cases letter : c.isDigit with
      | true => rfl
      | false =>
        have none : splitWhole? (c :: rest) = none := by
          have nothing : Decimal.splitDigits (c :: rest) = ([], c :: rest) := by
            simp [Decimal.splitDigits, letter]
          unfold splitWhole?
          split
          · next same =>
            rw [(List.cons.inj same).1] at letter
            cases letter
          · rw [nothing]
        unfold readNumber? at h
        simp only at h
        split at h
        · next same => exact absurd (List.cons.inj same).1 sign
        · rw [none] at h
          cases h

/-! ## Values -/

mutual

/-- The numbers in a document. -/
def numbers : Json → List JsonNumber
  | .number n => [n]
  | .array items => numbersOfItems items
  | .object entries => numbersOfEntries entries
  | _ => []

/-- The numbers in a list of documents. -/
def numbersOfItems : List Json → List JsonNumber
  | [] => []
  | item :: items => numbers item ++ numbersOfItems items

/-- The numbers in a list of entries. -/
def numbersOfEntries : List (String × Json) → List JsonNumber
  | [] => []
  | (_, value) :: entries => numbers value ++ numbersOfEntries entries

end

/-- The text of a document whose numbers are read back starts as a value does. -/
theorem exists_write (document : Json) (reads : ∀ n ∈ numbers document, n.ReadsBack) :
    ∃ c cs, write document = c :: cs ∧ startsValue c = true := by
  match document with
  | .null => exact ⟨_, _, rfl, by decide⟩
  | .bool true => exact ⟨_, _, rfl, by decide⟩
  | .bool false => exact ⟨_, _, rfl, by decide⟩
  | .number n =>
    have read := reads n (List.mem_singleton_self _) [] fun _ m => absurd m (by simp)
    rw [List.append_nil] at read
    obtain ⟨c, cs, e, sign | digit⟩ := exists_of_readNumber? read
    · exact ⟨c, cs, e, by rw [sign]; decide⟩
    · refine ⟨c, cs, e, ?_⟩
      unfold startsValue
      simp only [Bool.and_eq_true, bne_iff_ne]
      refine ⟨⟨⟨⟨⟨?_, ?_⟩, ?_⟩, ?_⟩, ?_⟩, ?_⟩ <;>
      · rintro rfl
        cases digit
  | .str text => exact ⟨_, _, rfl, by decide⟩
  | .array items => exact ⟨_, _, rfl, by decide⟩
  | .object entries => exact ⟨_, _, rfl, by decide⟩

/-- The text of some values with commas between them starts as the first one does. -/
theorem exists_separate (item : List Char) (items : List (List Char)) (e : item = c :: cs)
    (rest : List Char) : ∃ cs', separate ',' (item :: items) ++ rest = c :: cs' := by
  subst e
  cases items with
  | nil => exact ⟨cs ++ rest, rfl⟩
  | cons next items => exact ⟨cs ++ ',' :: separate ',' (next :: items) ++ rest, rfl⟩

mutual

/-- A document whose numbers are read back is read from its text, whatever can stand behind it. -/
theorem readValue?_write : (document : Json) → (∀ n ∈ numbers document, n.ReadsBack) →
    ∀ (fuel : Nat) (rest : List Char), (write document).length ≤ fuel → EndsValue rest →
      readValue? fuel (write document ++ rest) = some (document, rest) := by
  intro document reads fuel rest enough ends
  obtain ⟨c, cs, e, starts⟩ := exists_write document reads
  obtain ⟨fuel, rfl⟩ : ∃ fuel', fuel = fuel' + 1 := by
    rw [e, List.length_cons] at enough
    exact ⟨fuel - 1, by omega⟩
  have blanks : skipBlanks (write document ++ rest) = write document ++ rest := by
    rw [e, List.cons_append, skipBlanks_value starts]
  unfold readValue?
  rw [blanks]
  match document with
  | .null => rfl
  | .bool true => rfl
  | .bool false => rfl
  | .number n =>
    have read : readNumber? (writeNumber n ++ rest) = some (n, rest) :=
      reads n (List.mem_singleton_self _) rest ends
    obtain ⟨c, cs, e, first⟩ := exists_of_readNumber? read
    have text : write (.number n) ++ rest = c :: cs := e
    -- the reader tells values apart by their first character, and a number has none of the others'
    have other (c' : Char) (letter : c'.isDigit = false) (sign : c' ≠ '-') : c ≠ c' := by
      rintro rfl
      rcases first with first | first
      · exact sign first
      · rw [letter] at first
        cases first
    rw [text]
    split
    · next same => exact absurd (List.cons.inj same).1 (other _ (by decide) (by decide))
    · next same => exact absurd (List.cons.inj same).1 (other _ (by decide) (by decide))
    · next same => exact absurd (List.cons.inj same).1 (other _ (by decide) (by decide))
    · next same => exact absurd (List.cons.inj same).1 (other _ (by decide) (by decide))
    · next same => exact absurd (List.cons.inj same).1 (other _ (by decide) (by decide))
    · next same => exact absurd (List.cons.inj same).1 (other _ (by decide) (by decide))
    · rw [← e, read]
      rfl
  | .str text =>
    have quoted : write (.str text) ++ rest =
        '"' :: (text.toList.flatMap escape ++ '"' :: rest) := by simp [write, quote]
    rw [quoted]
    simp only [readQuoted?_quoted, Option.map_some, String.ofList_toList]
  | .array [] => rfl
  | .array (item :: items) =>
    have each : ∀ n ∈ numbers item ++ numbersOfItems items, n.ReadsBack := reads
    obtain ⟨c, cs, e, starts⟩ := exists_write item fun n m => each n (List.mem_append_left _ m)
    obtain ⟨cs', e'⟩ := exists_separate (write item) (writeItems items) e (']' :: rest)
    have text : write (.array (item :: items)) ++ rest = '[' :: c :: cs' := by
      rw [← e']
      simp [write, writeItems]
    have read := readItems?_write (item :: items) each (by simp) fuel rest (by
      simp only [write, List.length_cons, List.length_append] at enough
      omega)
    rw [writeItems, e'] at read
    rw [text]
    simp only [skipBlanks_value starts]
    split
    · next same =>
      rw [(List.cons.inj same).1] at starts
      cases starts
    · rw [read]
      rfl
  | .object [] => rfl
  | .object ((key, value) :: entries) =>
    obtain ⟨cs', e'⟩ := exists_separate (quote key.toList ++ ':' :: write value)
      (writeEntries entries) rfl ('\x7d' :: rest)
    have text : write (.object ((key, value) :: entries)) ++ rest = '\x7b' :: '"' :: cs' := by
      rw [← e']
      simp [write, writeEntries]
    have read := readEntries?_write ((key, value) :: entries) reads (by simp) fuel rest (by
      simp only [write, List.length_cons, List.length_append] at enough
      omega)
    rw [writeEntries, e'] at read
    rw [text]
    show (readEntries? fuel ('"' :: cs')).map _ = _
    rw [read]
    rfl

/-- The items of an array whose numbers are read back are read up to its bracket. -/
theorem readItems?_write : (items : List Json) → (∀ n ∈ numbersOfItems items, n.ReadsBack) →
    items ≠ [] → ∀ (fuel : Nat) (rest : List Char),
      (separate ',' (writeItems items)).length < fuel →
        readItems? fuel (separate ',' (writeItems items) ++ ']' :: rest) = some (items, rest) := by
  intro items reads some' fuel rest enough
  obtain ⟨fuel, rfl⟩ : ∃ fuel', fuel = fuel' + 1 := ⟨fuel - 1, by omega⟩
  match items with
  | [] => exact absurd rfl some'
  | [item] =>
    have text : separate ',' (writeItems [item]) = write item := rfl
    rw [text] at enough ⊢
    have first := readValue?_write item (fun n m => reads n (List.mem_append_left _ m)) fuel
      (']' :: rest) (by omega) (by simp [EndsValue])
    unfold readItems?
    rw [first]
    rfl
  | item :: next :: items =>
    have text : separate ',' (writeItems (item :: next :: items)) =
      write item ++ ',' :: separate ',' (writeItems (next :: items)) := rfl
    rw [text, List.length_append, List.length_cons] at enough
    have first := readValue?_write item (fun n m => reads n (List.mem_append_left _ m)) fuel
      (',' :: (separate ',' (writeItems (next :: items)) ++ ']' :: rest)) (by omega)
      (by simp [EndsValue])
    have others := readItems?_write (next :: items)
      (fun n m => reads n (List.mem_append_right _ m)) (by simp) fuel rest (by omega)
    unfold readItems?
    rw [text, List.append_assoc, List.cons_append, first]
    show (readItems? fuel _).map _ = _
    rw [others]
    rfl

/-- The entries of an object whose numbers are read back are read up to its brace. -/
theorem readEntries?_write : (entries : List (String × Json)) →
    (∀ n ∈ numbersOfEntries entries, n.ReadsBack) → entries ≠ [] →
      ∀ (fuel : Nat) (rest : List Char), (separate ',' (writeEntries entries)).length < fuel →
        readEntries? fuel (separate ',' (writeEntries entries) ++ '\x7d' :: rest) =
          some (entries, rest) := by
  intro entries reads some' fuel rest enough
  obtain ⟨fuel, rfl⟩ : ∃ fuel', fuel = fuel' + 1 := ⟨fuel - 1, by omega⟩
  -- the last entry has a brace behind it, any other one a comma
  match entries with
  | [] => exact absurd rfl some'
  | [(key, value)] =>
    have text : separate ',' (writeEntries [(key, value)]) ++ '\x7d' :: rest =
        '"' :: (key.toList.flatMap escape ++ '"' :: ':' :: (write value ++ '\x7d' :: rest)) := by
      simp [writeEntries, separate, quote]
    have first := readValue?_write value (fun n m => reads n (List.mem_append_left _ m)) fuel
      ('\x7d' :: rest) (by
        simp only [writeEntries, separate, List.length_append, List.length_cons] at enough
        omega) (by simp [EndsValue])
    unfold readEntries?
    rw [text, skipBlanks_value (by decide)]
    simp only [readQuoted?_quoted, skipBlanks_value (c := ':') (by decide), first,
      String.ofList_toList]
    rfl
  | (key, value) :: next :: entries =>
    have behind : separate ',' (writeEntries ((key, value) :: next :: entries)) =
      quote key.toList ++ ':' :: write value ++ ',' ::
        separate ',' (writeEntries (next :: entries)) := rfl
    have text : separate ',' (writeEntries ((key, value) :: next :: entries)) ++ '\x7d' :: rest =
        '"' :: (key.toList.flatMap escape ++ '"' :: ':' :: (write value ++ ',' ::
          (separate ',' (writeEntries (next :: entries)) ++ '\x7d' :: rest))) := by
      simp [behind, quote]
    rw [behind] at enough
    simp only [List.length_append, List.length_cons] at enough
    have first := readValue?_write value (fun n m => reads n (List.mem_append_left _ m)) fuel
      (',' :: (separate ',' (writeEntries (next :: entries)) ++ '\x7d' :: rest)) (by omega)
      (by simp [EndsValue])
    have others := readEntries?_write (next :: entries)
      (fun n m => reads n (List.mem_append_right _ m)) (by simp) fuel rest (by omega)
    unfold readEntries?
    rw [text, skipBlanks_value (by decide)]
    simp only [readQuoted?_quoted, skipBlanks_value (c := ':') (by decide), first,
      skipBlanks_value (c := ',') (by decide), others, Option.map_some, String.ofList_toList]

end

/-- A document whose numbers are read back is read from its compact text. -/
theorem parse?_compact {document : Json} (reads : ∀ n ∈ numbers document, n.ReadsBack) :
    parse? document.compact = some document := by
  have read := readValue?_write document reads (2 * (write document).length + 2) [] (by omega)
    fun _ m => absurd m (by simp)
  rw [List.append_nil] at read
  unfold parse? compact ofChars?
  rw [String.toList_ofList, read]
  rfl

end Json

end Pipewright
