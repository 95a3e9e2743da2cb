/-! # Texts
Taking a known text off the front of another, trimming a text, and cutting it at a character or into
its lines. -/

namespace Pipewright.Text

/-! ## Leads -/

/-- What is left of a text behind a lead, if it starts with it. -/
def dropLead? : List Char → List Char → Option (List Char)
  | [], cs => some cs
  | _ :: _, [] => none
  | l :: lead, c :: cs => if l = c then dropLead? lead cs else none

/-- What is left behind a lead are the characters that follow it. -/
theorem dropLead?_eq_some_iff {lead cs rest : List Char} :
    dropLead? lead cs = some rest ↔ cs = lead ++ rest := by
  induction lead generalizing cs with
  | nil => simp [dropLead?]
  | cons l lead ih =>
    cases cs with
    | nil => simp [dropLead?]
    | cons c cs =>
      by_cases h : l = c
      · simp [dropLead?, h, ih]
      · have h' : ¬ c = l := fun e => h e.symm
        simp [dropLead?, h, h']

/-- A text that was put behind a lead is left. -/
@[simp] theorem dropLead?_append (lead rest : List Char) :
    dropLead? lead (lead ++ rest) = some rest :=
  dropLead?_eq_some_iff.2 rfl

/-! ## Blank characters
The characters with the Unicode property `White_Space`, and trimming by them. -/

/-- The characters with the Unicode property `White_Space`. -/
def isBlankChar (c : Char) : Bool :=
  let n := c.toNat
  (9 ≤ n && n ≤ 13) || n == 0x20 || n == 0x85 || n == 0xA0 || n == 0x1680 ||
    (0x2000 ≤ n && n ≤ 0x200A) || n == 0x2028 || n == 0x2029 || n == 0x202F || n == 0x205F ||
    n == 0x3000

/-- Every character that is white space in the narrow sense is blank. -/
theorem isBlankChar_of_isWhitespace {c : Char} (h : c.isWhitespace = true) :
    isBlankChar c = true := by
  simp only [Char.isWhitespace, Bool.or_eq_true, decide_eq_true_eq] at h
  rcases h with ((h | h) | h) | h <;> subst h <;> decide

/-- A text of blank characters only, the empty one included. -/
def isBlank (cs : List Char) : Bool := cs.all isBlankChar

/-- A text without the blank characters at its start. -/
def trimStart (cs : List Char) : List Char := cs.dropWhile isBlankChar

/-- A text without the blank characters at its end. -/
def trimEnd (cs : List Char) : List Char := (trimStart cs.reverse).reverse

/-- A text without the blank characters at both ends. -/
def trim (cs : List Char) : List Char := trimEnd (trimStart cs)

@[simp] theorem trim_nil : trim [] = [] := rfl

/-! ## Segments
Cutting a text at a separating character. -/

/-- The segments between the occurrences of a separator; there is always at least one. -/
def segments (separator : Char) : List Char → List (List Char)
  | [] => [[]]
  | c :: rest =>
    if c = separator then [] :: segments separator rest
    else match segments separator rest with
      | [] => [[c]]
      | segment :: others => (c :: segment) :: others

/-- There is always a segment. -/
theorem segments_ne_nil (separator : Char) (cs : List Char) : segments separator cs ≠ [] := by
  cases cs with
  | nil => simp [segments]
  | cons c rest =>
    unfold segments
    split
    · simp
    · split <;> simp

/-- A text without separators is one segment. -/
theorem segments_of_not_mem {separator : Char} {cs : List Char} (h : separator ∉ cs) :
    segments separator cs = [cs] := by
  induction cs with
  | nil => rfl
  | cons c rest ih =>
    have hc : c ≠ separator := fun e => h (e ▸ List.mem_cons_self)
    simp [segments, hc, ih fun m => h (List.mem_cons_of_mem _ m)]

/-- Cutting behind a text without separators gives that text and the segments of the rest. -/
theorem segments_append_cons {separator : Char} {cs : List Char} (h : separator ∉ cs)
    (rest : List Char) :
    segments separator (cs ++ separator :: rest) = cs :: segments separator rest := by
  induction cs with
  | nil => simp [segments]
  | cons c cs ih =>
    have hc : c ≠ separator := fun e => h (e ▸ List.mem_cons_self)
    simp [segments, hc, ih fun m => h (List.mem_cons_of_mem _ m)]

/-! ## Lines
Cutting a text into lines and indenting it. A line ends at a line feed; one carriage return in
front of that line feed belongs to the line's end, any other carriage return to the line. -/

/-- Cut a text after each line feed; the last piece may lack one. -/
def linePieces : List Char → List (List Char)
  | [] => []
  | c :: rest =>
    if c = '\n' then [c] :: linePieces rest
    else match linePieces rest with
      | [] => [[c]]
      | piece :: pieces => (c :: piece) :: pieces

/-- A piece without its line feed and without the carriage return in front of that. -/
def dropLineEnd : List Char → List Char
  | [] => []
  | ['\n'] => []
  | ['\r', '\n'] => []
  | c :: rest => c :: dropLineEnd rest

/-- The lines of a text. A line feed at the very end opens no further line. -/
def lines (cs : List Char) : List (List Char) := (linePieces cs).map dropLineEnd

/-- Nothing is lost by cutting. -/
@[simp] theorem flatten_linePieces (cs : List Char) : (linePieces cs).flatten = cs := by
  induction cs with
  | nil => rfl
  | cons c rest ih =>
    unfold linePieces
    split
    · simp [ih]
    · split
      · next hp => simp [hp] at ih; simp [← ih]
      · next hp => simpa [hp] using ih

/-- Texts with a line feed between each two. -/
def joinLines (texts : List String) : String := "\n".intercalate texts

/-- A line behind a lead; a blank line becomes empty instead. -/
def indentLine (lead : String) (line : List Char) : String :=
  if isBlank line then "" else lead ++ String.ofList line

/-- Put a lead in front of every line that is not blank, and empty the blank ones. -/
def indent (lead : String) (text : String) : String :=
  joinLines ((lines text.toList).map (indentLine lead))

end Pipewright.Text
