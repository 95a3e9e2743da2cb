import Pipewright.Decimal.Layout

/-! # JSON documents
The tree of a JSON document, and its compact text: no blanks, every text in double quotes with the
shortest escape that JSON has for a character that needs one, floating-point numbers with their
shortest digits. -/

namespace Pipewright

/-- A number in a document: one without fraction and exponent that a 64-bit word holds, with or
without sign, or a floating-point number. -/
inductive JsonNumber where
  /-- A whole number. -/
  | whole (n : Int)
  /-- A floating-point number. -/
  | real (x : Float)

/-- The tree of a document. -/
inductive Json where
  /-- The null value. -/
  | null
  /-- A truth value. -/
  | bool (b : Bool)
  /-- A number. -/
  | number (n : JsonNumber)
  /-- A text. -/
  | str (text : String)
  /-- An array. -/
  | array (items : List Json)
  /-- An object, its entries in the order in which they are written, repeats kept. -/
  | object (entries : List (String × Json))

namespace Json

/-- The four lower-case hexadecimal digits of a code point below 65536. -/
def fourHexDigits (n : Nat) : List Char :=
  [Nat.digitChar (n / 4096 % 16), Nat.digitChar (n / 256 % 16), Nat.digitChar (n / 16 % 16),
    Nat.digitChar (n % 16)]

/-- How a character stands in a quoted text. -/
def escape (c : Char) : List Char :=
  if c = '"' then ['\\', '"']
  else if c = '\\' then ['\\', '\\']
  else if c = '\x08' then ['\\', 'b']
  else if c = '\x0c' then ['\\', 'f']
  else if c = '\n' then ['\\', 'n']
  else if c = '\r' then ['\\', 'r']
  else if c = '\t' then ['\\', 't']
  else if c.toNat < 0x20 then '\\' :: 'u' :: fourHexDigits c.toNat
  else [c]

/-- A text between double quotes. -/
def quote (cs : List Char) : List Char := '"' :: (cs.flatMap escape ++ ['"'])

/-- A number; a floating-point number that is not finite has no text of its own. -/
def writeNumber : JsonNumber → List Char
  | .whole n => (toString n).toList
  | .real x =>
    if x.isNaN || x.isInf then ['n', 'u', 'l', 'l'] else Decimal.Layout.json.writeFinite x

/-- Put a separator between each two texts. -/
def separate (separator : Char) : List (List Char) → List Char
  | [] => []
  | [cs] => cs
  | cs :: rest => cs ++ separator :: separate separator rest

mutual

/-- The compact text of a document. -/
def write : Json → List Char
  | .null => ['n', 'u', 'l', 'l']
  | .bool true => ['t', 'r', 'u', 'e']
  | .bool false => ['f', 'a', 'l', 's', 'e']
  | .number n => writeNumber n
  | .str text => quote text.toList
  | .array items => '[' :: (separate ',' (writeItems items) ++ [']'])
  | .object entries => '\x7b' :: (separate ',' (writeEntries entries) ++ ['\x7d'])

/-- The texts of the items of an array. -/
def writeItems : List Json → List (List Char)
  | [] => []
  | item :: items => write item :: writeItems items

/-- The texts of the entries of an object. -/
def writeEntries : List (String × Json) → List (List Char)
  | [] => []
  | (key, value) :: entries => (quote key.toList ++ ':' :: write value) :: writeEntries entries

end

/-- The compact text of a document. -/
def compact (document : Json) : String := String.ofList (write document)

end Json

end Pipewright
