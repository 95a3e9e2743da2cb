import Pipewright.Text.Unprintable

/-! # Quoted texts
A text between double quotes in which every character that is not printed is shown by number, so
that the quoted text is one line and tells any two texts apart. -/

namespace Pipewright.Text

/-- The hexadecimal digits of a number in lower case, without leading zeros. -/
def hexDigits (n : Nat) : List Char := Nat.toDigits 16 n

/-- How a character stands in a quoted text. -/
def quotedChar (c : Char) : List Char :=
  if c = '"' then ['\\', '"']
  else if c = '\\' then ['\\', '\\']
  else if c = '\n' then ['\\', 'n']
  else if c = '\r' then ['\\', 'r']
  else if c = '\t' then ['\\', 't']
  else if c = '\x00' then ['\\', '0']
  else if isUnprintable c then ['\\', 'u', '\x7b'] ++ hexDigits c.toNat ++ ['\x7d']
  else [c]

/-- A text between double quotes. -/
def quotedChars (cs : List Char) : List Char := '"' :: (cs.flatMap quotedChar ++ ['"'])

/-- A text between double quotes. -/
def quoted (text : String) : String := String.ofList (quotedChars text.toList)

/-- A list of texts, each between double quotes. -/
def quotedList (texts : List String) : String :=
  "[" ++ ", ".intercalate (texts.map quoted) ++ "]"

example : quotedChars ['a', '"', '\n'] = ['"', 'a', '\\', '"', '\\', 'n', '"'] := by decide

end Pipewright.Text
