import Pipewright.Toml.Text

/-! # Writing TOML documents
A text is written in the first of several ways that needs no escapes: between double quotes, between
single quotes, and between triples of either. If each of them needs some, it is written with
escapes. -/

namespace Pipewright.Toml

/-- The length of the longest run of a character. -/
def longestRun (mark : Char) (cs : List Char) : Nat :=
  (cs.foldl (fun (run : Nat × Nat) c =>
    if c = mark then (run.1 + 1, max run.2 (run.1 + 1)) else (0, run.2)) (0, 0)).2

/-- Control characters but for tabs and line feeds always need an escape. -/
def isControl (c : Char) : Bool := c ≠ '\t' && c ≠ '\n' && (c.toNat < 0x20 || c.toNat = 0x7F)

/-- Four hexadecimal digits of a number, in capital letters. -/
def fourHex (n : Nat) : List Char :=
  [n / 4096, n / 256, n / 16, n].map fun d => (Nat.digitChar (d % 16)).toUpper

/-- A character of a text between double quotes. -/
def escape (several : Bool) (c : Char) : List Char :=
  if c = '\x08' then ['\\', 'b']
  else if c = '\t' then ['\\', 't']
  else if c = '\n' then if several then ['\n'] else ['\\', 'n']
  else if c = '\x0c' then ['\\', 'f']
  else if c = '\r' then ['\\', 'r']
  else if c = '\\' then ['\\', '\\']
  else if isControl c then '\\' :: 'u' :: fourHex c.toNat
  else [c]

/-- The characters of a text between double quotes. Of double quotes in a row, only so many stand
for themselves as cannot be taken for the end. -/
def escapeAll (several : Bool) : Nat → List Char → List Char
  | _, [] => []
  | run, '"' :: rest =>
    if several && run < 2 then '"' :: escapeAll several (run + 1) rest
    else '\\' :: '"' :: escapeAll several 0 rest
  | _, c :: rest => escape several c ++ escapeAll several 0 rest

/-- A text between double quotes. -/
def quoted (s : String) : String := "\"" ++ String.ofList (escapeAll false 0 s.toList) ++ "\""

/-- A text between quotes. -/
def writeText (s : String) : String :=
  let cs := s.toList
  let singles := longestRun '\'' cs
  let doubles := longestRun '"' cs
  let several := cs.contains '\n'
  let start := if several then "\n" else ""
  let controls := cs.any isControl
  let escapes := controls || cs.contains '\\'
  let block := "\"\"\"" ++ start ++ String.ofList (escapeAll true 0 cs) ++ "\"\"\""
  if !escapes && doubles = 0 && !several then quoted s
  else if !controls && singles = 0 && !several then "'" ++ s ++ "'"
  else if !escapes && doubles ≤ 2 then block
  else if !controls && singles ≤ 2 then "'''" ++ start ++ s ++ "'''"
  else if several then block
  else quoted s

/-- An array of texts, one a line if there are several. -/
def writeTexts (texts : List String) : String :=
  match texts with
  | [] => "[]"
  | [text] => "[" ++ writeText text ++ "]"
  | texts => "[\n" ++ String.join (texts.map fun text => "    " ++ writeText text ++ ",\n") ++ "]"

/-- A line that assigns a written value. -/
def writeEntry (key written : String) : String := key ++ " = " ++ written ++ "\n"

end Pipewright.Toml
