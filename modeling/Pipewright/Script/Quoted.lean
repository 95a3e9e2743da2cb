import Pipewright.Json.Basic
import Pipewright.Script.Identifier

/-! # Quoted texts in programs
How any text is written as a quoted one on a single line, and how names of fields and entries are
written: bare where they are identifiers, else as quoted texts. -/

namespace Pipewright.Script

/-- The characters of the general category `Cc`. -/
def isControl (c : Char) : Bool := c.toNat < 0x20 || (0x7F ≤ c.toNat && c.toNat ≤ 0x9F)

/-- How a character stands in a quoted text. -/
def escape (c : Char) : List Char :=
  if c = '\\' then ['\\', '\\']
  else if c = '"' then ['\\', '"']
  else if c = '\n' then ['\\', 'n']
  else if c = '\r' then ['\\', 'r']
  else if c = '\t' then ['\\', 't']
  else if isControl c then '\\' :: 'u' :: Json.fourHexDigits c.toNat
  else [c]

/-- A text between double quotes. -/
def quote (cs : List Char) : List Char := '"' :: (cs.flatMap escape ++ ['"'])

/-- A text between double quotes. -/
def quoted (text : String) : String := String.ofList (quote text.toList)

/-- The key of an entry of a map. -/
def keyText (name : String) : String := if isIdentifier name then name else quoted name

/-- A field of a target. -/
def fieldText (target name : String) : String :=
  if isIdentifier name then target ++ "." ++ name else target ++ "[" ++ quoted name ++ "]"

/-- No control character stands in a quoted text, whatever the text; so it is one line. -/
theorem isControl_of_mem_quote {cs : List Char} {c : Char} (m : c ∈ quote cs) :
    isControl c = false := by
  have digit : ∀ n, isControl (Nat.digitChar (n % 16)) = false := by
    have small : ∀ n, n < 16 → isControl (Nat.digitChar n) = false := by decide
    exact fun n => small _ (Nat.mod_lt _ (by decide))
  have signs : isControl '\\' = false ∧ isControl '"' = false ∧ isControl 'n' = false ∧
      isControl 'r' = false ∧ isControl 't' = false ∧ isControl 'u' = false := by decide
  have escaped : ∀ d : Char, ∀ c ∈ escape d, isControl c = false := by
    intro d
    unfold escape
    split
    · simp [signs]
    split
    · simp [signs]
    split
    · simp [signs]
    split
    · simp [signs]
    split
    · simp [signs]
    split
    · simp [Json.fourHexDigits, digit, signs]
    · next plain => simpa using plain
  unfold quote at m
  simp only [List.mem_cons, List.mem_append, List.mem_flatMap, List.not_mem_nil, or_false] at m
  rcases m with rfl | ⟨d, -, m⟩ | rfl
  · exact signs.2.1
  · exact escaped d c m
  · exact signs.2.1

end Pipewright.Script
