import Pipewright.Toml.Number
import Pipewright.Toml.Text

/-! # Reading TOML documents
A document is read line by line; the lines then make up its table. -/

namespace Pipewright.Toml

/-- Drop the blanks at the start of a text. -/
def skipBlanks (cs : List Char) : List Char := cs.dropWhile isBlank

/-- Drop blanks, line ends and comments, as they may stand between the items of an array. The flag
says that a comment is going on. -/
def skipSpace : Bool → List Char → List Char
  | _, [] => []
  | _, '\r' :: '\n' :: rest => skipSpace false rest
  | commenting, c :: rest =>
    if c = '\n' then skipSpace false rest
    else if commenting then if isPlain c then skipSpace true rest else c :: rest
    else if isBlank c then skipSpace false rest
    else if c = '#' then skipSpace true rest
    else c :: rest

/-- What follows a line that is over but for blanks and a comment. -/
def endLine? (cs : List Char) : Option (List Char) :=
  let rest := match skipBlanks cs with
    | '#' :: rest => rest.dropWhile isPlain
    | rest => rest
  match rest with
  | [] => some []
  | '\n' :: rest => some rest
  | '\r' :: '\n' :: rest => some rest
  | _ => none

/-! ## Keys -/

/-- The character may stand in a key without quotes. -/
def isBare (c : Char) : Bool := c.isAlphanum || c = '_' || c = '-'

/-- One part of a key, and what follows it. -/
def readPart? : List Char → Option (String × List Char)
  | '"' :: rest => (readQuoted? rest).map fun found => (String.ofList found.1, found.2)
  | '\'' :: rest => (readLiteral? rest).map fun found => (String.ofList found.1, found.2)
  | cs =>
    let part := cs.takeWhile isBare
    if part.isEmpty then none else some (String.ofList part, cs.dropWhile isBare)

/-- How deep arrays and tables may stand inside each other, and how many parts a key may have. -/
def maxDepth : Nat := 79

/-- The parts of a key between points, and what follows the blanks behind them; with fuel for each
part. -/
def readParts? : Nat → List Char → Option (List String × List Char)
  | 0, _ => none
  | fuel + 1, cs => do
    let (part, rest) ← readPart? (skipBlanks cs)
    match skipBlanks rest with
    | '.' :: rest =>
      let (parts, rest) ← readParts? fuel rest
      return (part :: parts, rest)
    | rest => return ([part], rest)

/-- A key, and what follows it. -/
def readKey? (cs : List Char) : Option (Key × List Char) := do
  let (parts, rest) ← readParts? maxDepth cs
  return (⟨parts.dropLast, ← parts.getLast?⟩, rest)

/-! ## Values -/

mutual

/-- A value, and what follows it. The depth bounds how many arrays and tables stand inside each
other; every call consumes fuel, and each two calls a character. -/
def readValue? : Nat → Nat → List Char → Option (Value × List Char)
  | _, 0, _ => none
  | depth, fuel + 1, cs =>
    match cs with
    | 't' :: 'r' :: 'u' :: 'e' :: rest => some (.flag true, rest)
    | 'f' :: 'a' :: 'l' :: 's' :: 'e' :: rest => some (.flag false, rest)
    | '[' :: rest =>
      match depth with
      | 0 => none
      | depth + 1 => (readItems? depth fuel rest).map fun found => (.array found.1, found.2)
    | '\x7b' :: rest =>
      match depth with
      | 0 => none
      | depth + 1 =>
        match skipBlanks rest with
        | '\x7d' :: rest => some (.table .inline [], rest)
        | rest => do
          let (entries, rest) ← readEntries? depth fuel rest
          return (← inlineTable [] entries, rest)
    | cs =>
      match cs.head? with
      | some '"' => (readText? cs).map fun found => (.text (String.ofList found.1), found.2)
      | some '\'' => (readText? cs).map fun found => (.text (String.ofList found.1), found.2)
      | _ =>
        match skipMoment? cs with
        | some rest => some (.moment, rest)
        | none => readNumber? cs

/-- The items of an array, and what follows its bracket. -/
def readItems? : Nat → Nat → List Char → Option (List Value × List Char)
  | _, 0, _ => none
  | depth, fuel + 1, cs =>
    match skipSpace false cs with
    | ']' :: rest => some ([], rest)
    | cs => do
      let (item, rest) ← readValue? depth fuel cs
      match skipSpace false rest with
      | ']' :: rest => return ([item], rest)
      | ',' :: rest =>
        let (items, rest) ← readItems? depth fuel rest
        return (item :: items, rest)
      | _ => none

/-- The entries of a table between braces, at least one, and what follows the closing brace. -/
def readEntries? : Nat → Nat → List Char → Option (List (Key × Value) × List Char)
  | _, 0, _ => none
  | depth, fuel + 1, cs => do
    let (key, rest) ← readKey? cs
    let (v, rest) ← readValue? depth fuel (skipBlanks (← expect? '=' rest))
    match skipBlanks rest with
    | '\x7d' :: rest => return ([(key, v)], rest)
    | ',' :: rest =>
      let (entries, rest) ← readEntries? depth fuel rest
      return ((key, v) :: entries, rest)
    | _ => none

end

/-! ## Lines -/

/-- What the first line of a text says, if anything, and what follows the line. -/
def readLine? (cs : List Char) : Option (Option Line × List Char) :=
  match skipBlanks cs with
  | '[' :: '[' :: rest => do
    let (key, rest) ← readKey? rest
    return (some (.element key), ← endLine? (← expect? ']' (← expect? ']' rest)))
  | '[' :: rest => do
    let (key, rest) ← readKey? rest
    return (some (.table key), ← endLine? (← expect? ']' rest))
  | cs =>
    match endLine? cs with
    | some rest => some (none, rest)
    | none => do
      let (key, rest) ← readKey? cs
      let rest := skipBlanks (← expect? '=' rest)
      let (v, rest) ← readValue? maxDepth (2 * rest.length + 2) rest
      return (some (.entry key v), ← endLine? rest)

/-- What the lines of a text say; with fuel for each line. -/
def readLines? : Nat → List Char → Option (List Line)
  | 0, _ => none
  | _, [] => some []
  | fuel + 1, cs => do
    let (line, rest) ← readLine? cs
    return line.toList ++ (← readLines? fuel rest)

/-- The table of a document, which may start with a mark of its byte order. -/
def parse? (text : String) : Option Table := do
  let cs := match text.toList with
    | '\ufeff' :: rest => rest
    | cs => cs
  build [] [] (← readLines? (cs.length + 1) cs)

end Pipewright.Toml
