/-! # Identifiers of the script language
The words the language keeps for itself, and which texts can name a variable, a function, a field
or an entry of a map without quotes. -/

namespace Pipewright.Script

/-- The words that cannot name a variable or a function. -/
def reservedWords : List String :=
  ["true", "false", "let", "const", "if", "else", "switch", "do", "while", "until", "loop", "for",
    "in", "break", "continue", "return", "throw", "try", "catch", "import", "export", "as",
    "private", "fn", "this", "global", "Fn", "call", "curry", "type_of", "print", "debug", "eval",
    "is_def_var", "is_def_fn", "is_shared", "var", "static", "shared", "sync", "go", "async",
    "await", "yield", "default", "case", "public", "protected", "new", "use", "with", "module",
    "package", "super", "thread", "spawn", "goto", "exit", "match", "macro", "include", "void",
    "null", "nil"]

/-- Whether a text is a word the language keeps for itself. -/
def isReserved (name : String) : Bool := reservedWords.contains name

/-- Letters, digits and the underscore, in ASCII. -/
def isWordChar (c : Char) : Bool := c.isAlphanum || c == '_'

/-- Letters and the underscore, in ASCII. -/
def isWordStart (c : Char) : Bool := c.isAlpha || c == '_'

/-- Whether characters make up a word: they start with no digit, and are not underscores only. -/
def isWord : List Char → Bool
  | [] => false
  | c :: rest =>
    isWordStart c && (c :: rest).all isWordChar && (c :: rest).any Char.isAlphanum

/-- Whether a word can name something: a letter stands before its first digit. -/
def isName (cs : List Char) : Bool :=
  match cs.dropWhile (· == '_') with
  | [] => false
  | c :: _ => c.isAlpha

/-- Whether a text is written without quotes where the language wants a name. -/
def isIdentifier (name : String) : Bool := isWord name.toList && !isReserved name

/-- Characters of words stay, every other one becomes an underscore; one more underscore stands
before a leading digit. -/
def sanitizeChars (cs : List Char) : List Char :=
  let words := cs.map fun c => if isWordChar c then c else '_'
  match words with
  | c :: rest => if c.isDigit then '_' :: c :: rest else c :: rest
  | [] => []

/-- A text of characters of words only, made from any text. -/
def sanitize (name : String) : String := String.ofList (sanitizeChars name.toList)

/-- Nothing but characters of words is left. -/
theorem isWordChar_of_mem_sanitizeChars {cs : List Char} {c : Char} (h : c ∈ sanitizeChars cs) :
    isWordChar c = true := by
  have mapped : ∀ d ∈ cs.map (fun c => if isWordChar c then c else '_'), isWordChar d = true := by
    intro d m
    obtain ⟨e, -, rfl⟩ := List.mem_map.1 m
    split
    · assumption
    · decide
  unfold sanitizeChars at h
  generalize cs.map (fun c => if isWordChar c then c else '_') = words at h mapped
  cases words with
  | nil => simp at h
  | cons d rest =>
    by_cases digit : d.isDigit
    · simp only [digit, if_true] at h
      rcases List.mem_cons.1 h with rfl | h
      · decide
      · exact mapped c h
    · simp only [digit] at h
      exact mapped c h

end Pipewright.Script
