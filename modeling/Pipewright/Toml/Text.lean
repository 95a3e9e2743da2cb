import Pipewright.Json.Reader

/-! # Texts in TOML documents
A text stands between quotes on one line, or between triple quotes on several. Between double quotes
a backslash starts an escape; between single quotes every character stands for itself. -/

namespace Pipewright.Toml

/-- Blanks between the tokens of a line. -/
def isBlank (c : Char) : Bool := c = ' ' || c = '\t'

/-- The character may stand in a comment or a text: a tab, or no control character. -/
def isPlain (c : Char) : Bool := c = '\t' || (0x20 ≤ c.toNat && c.toNat ≠ 0x7F)

/-- The character that a single letter behind a backslash means. -/
def unescape? (c : Char) : Option Char := if c = '/' then none else Json.unescape? c

/-- The number of hexadecimal digits. -/
def hexNumber? (digits : List Char) : Option Nat :=
  digits.foldlM (fun n c => (Json.hexValue? c).map (16 * n + ·)) 0

/-- The character of a number, if it is the number of one. -/
def scalar? (n : Nat) : Option Char := if n.isValidChar then some (Char.ofNat n) else none

/-- Put a character in front of a text that was read. -/
def consRead (c : Char) : List Char × List Char → List Char × List Char
  | (text, rest) => (c :: text, rest)

/-- The characters of a text on one line and what follows its closing double quote. -/
def readQuoted? : List Char → Option (List Char × List Char)
  | [] => none
  | '"' :: rest => some ([], rest)
  | '\\' :: 'u' :: a :: b :: c :: d :: rest => do
    let ch ← (hexNumber? [a, b, c, d]).bind scalar?
    (readQuoted? rest).map (consRead ch)
  | '\\' :: 'U' :: a :: b :: c :: d :: e :: f :: g :: h :: rest => do
    let ch ← (hexNumber? [a, b, c, d, e, f, g, h]).bind scalar?
    (readQuoted? rest).map (consRead ch)
  | '\\' :: c :: rest => do
    let ch ← unescape? c
    (readQuoted? rest).map (consRead ch)
  | c :: rest => if isPlain c && c ≠ '\\' then (readQuoted? rest).map (consRead c) else none

/-- The characters of a literal text on one line and what follows its closing single quote. -/
def readLiteral? : List Char → Option (List Char × List Char)
  | [] => none
  | '\'' :: rest => some ([], rest)
  | c :: rest => if isPlain c then (readLiteral? rest).map (consRead c) else none

/-- Whether nothing but blanks comes before the end of the line. -/
def endsLine (cs : List Char) : Bool :=
  match cs.dropWhile isBlank with
  | '\n' :: _ => true
  | '\r' :: '\n' :: _ => true
  | _ => false

/-- The characters of a text on several lines and what follows its closing quotes. Up to two quotes
may stand right before those. A backslash at the end of a line swallows blanks and line ends up to
the next character, which the flag says is going on. -/
def readBlock? : Bool → List Char → Option (List Char × List Char)
  | _, [] => none
  | _, '"' :: '"' :: '"' :: '"' :: '"' :: rest => some (['"', '"'], rest)
  | _, '"' :: '"' :: '"' :: '"' :: rest => some (['"'], rest)
  | _, '"' :: '"' :: '"' :: rest => some ([], rest)
  | _, '\\' :: 'u' :: a :: b :: c :: d :: rest => do
    let ch ← (hexNumber? [a, b, c, d]).bind scalar?
    (readBlock? false rest).map (consRead ch)
  | _, '\\' :: 'U' :: a :: b :: c :: d :: e :: f :: g :: h :: rest => do
    let ch ← (hexNumber? [a, b, c, d, e, f, g, h]).bind scalar?
    (readBlock? false rest).map (consRead ch)
  | _, '\\' :: c :: rest =>
    if endsLine (c :: rest) then readBlock? true (c :: rest)
    else do
      let ch ← unescape? c
      (readBlock? false rest).map (consRead ch)
  | swallowing, '\r' :: '\n' :: rest =>
    if swallowing then readBlock? true rest else (readBlock? false rest).map (consRead '\n')
  | swallowing, c :: rest =>
    if swallowing && (isBlank c || c = '\n') then readBlock? true rest
    else if c = '\n' || (isPlain c && c ≠ '\\') then (readBlock? false rest).map (consRead c)
    else none

/-- The characters of a literal text on several lines and what follows its closing quotes. -/
def readLiteralBlock? : List Char → Option (List Char × List Char)
  | [] => none
  | '\'' :: '\'' :: '\'' :: '\'' :: '\'' :: rest => some (['\'', '\''], rest)
  | '\'' :: '\'' :: '\'' :: '\'' :: rest => some (['\''], rest)
  | '\'' :: '\'' :: '\'' :: rest => some ([], rest)
  | '\r' :: '\n' :: rest => (readLiteralBlock? rest).map (consRead '\n')
  | c :: rest =>
    if c = '\n' || isPlain c then (readLiteralBlock? rest).map (consRead c) else none

/-- A line end right behind opening quotes is not part of the text. -/
def dropLineEnd : List Char → List Char
  | '\n' :: rest => rest
  | '\r' :: '\n' :: rest => rest
  | cs => cs

/-- A text between quotes of any kind and what follows it. -/
def readText? : List Char → Option (List Char × List Char)
  | '"' :: '"' :: '"' :: rest => readBlock? false (dropLineEnd rest)
  | '"' :: rest => readQuoted? rest
  | '\'' :: '\'' :: '\'' :: rest => readLiteralBlock? (dropLineEnd rest)
  | '\'' :: rest => readLiteral? rest
  | _ => none

end Pipewright.Toml
