import Pipewright.Decimal.Reading
import Pipewright.Json.Basic

/-! # Reading JSON documents
The tree of a document's text, if it is well formed: one value, with blanks around any token and
nothing behind it. -/

namespace Pipewright.Json

/-- Drop the blanks that may stand between tokens. -/
def skipBlanks : List Char → List Char
  | [] => []
  | c :: rest =>
    if c = ' ' || c = '\n' || c = '\t' || c = '\r' then skipBlanks rest else c :: rest

/-- The value of a hexadecimal digit. -/
def hexValue? (c : Char) : Option Nat :=
  if c.isDigit then some (c.toNat - 48)
  else if 'a' ≤ c && c ≤ 'f' then some (c.toNat - 87)
  else if 'A' ≤ c && c ≤ 'F' then some (c.toNat - 55)
  else none

/-- The number of four hexadecimal digits. -/
def fourHexValue? (a b c d : Char) : Option Nat := do
  let a ← hexValue? a
  let b ← hexValue? b
  let c ← hexValue? c
  let d ← hexValue? d
  return ((a * 16 + b) * 16 + c) * 16 + d

/-- The character that a single letter behind a backslash means. -/
def unescape? (c : Char) : Option Char :=
  if c = '"' then some '"'
  else if c = '\\' then some '\\'
  else if c = '/' then some '/'
  else if c = 'b' then some '\x08'
  else if c = 'f' then some '\x0c'
  else if c = 'n' then some '\n'
  else if c = 'r' then some '\r'
  else if c = 't' then some '\t'
  else none

/-- The character of a pair of surrogates. -/
def pairValue? (high low : Nat) : Option Char :=
  if 0xD800 ≤ high && high < 0xDC00 && 0xDC00 ≤ low && low < 0xE000 then
    some (Char.ofNat (0x10000 + (high - 0xD800) * 0x400 + (low - 0xDC00)))
  else none

/-- The characters of a quoted text and what follows its closing quote. The opening quote is
already gone. -/
def readQuoted? : List Char → Option (List Char × List Char)
  | [] => none
  | '"' :: rest => some ([], rest)
  | '\\' :: 'u' :: a :: b :: c :: d :: rest =>
    match fourHexValue? a b c d with
    | none => none
    | some n =>
      if n < 0xD800 || 0xE000 ≤ n then
        (readQuoted? rest).map fun (text, rest) => (Char.ofNat n :: text, rest)
      else
        match rest with
        | '\\' :: 'u' :: a :: b :: c :: d :: rest =>
          match (fourHexValue? a b c d).bind (pairValue? n) with
          | none => none
          | some ch => (readQuoted? rest).map fun (text, rest) => (ch :: text, rest)
        | _ => none
  | '\\' :: c :: rest =>
    match unescape? c with
    | none => none
    | some ch => (readQuoted? rest).map fun (text, rest) => (ch :: text, rest)
  | c :: rest =>
    if c.toNat < 0x20 || c = '\\' then none
    else (readQuoted? rest).map fun (text, rest) => (c :: text, rest)

/-- The digits before the point: a single zero, or digits that start with another one. -/
def splitWhole? (cs : List Char) : Option (List Char × List Char) :=
  match cs with
  | '0' :: rest => some (['0'], rest)
  | cs =>
    match Decimal.splitDigits cs with
    | ([], _) => none
    | (digits, rest) => some (digits, rest)

/-- The exponent of a number and what follows it. -/
def splitExponent? (cs : List Char) : Option (Int × List Char) :=
  let (negative, cs) := Decimal.splitSign cs
  match Decimal.splitDigits cs with
  | ([], _) => none
  | (digits, rest) =>
    let n : Int := Decimal.readDigits 0 digits
    some (if negative then -n else n, rest)

/-- A number with fraction or exponent. An exponent that 31 bits do not hold makes the number too
large, or else zero. -/
def scaledNumber? (negative : Bool) (whole fraction : List Char) (exponent : Int) :
    Option JsonNumber :=
  if 2147483648 ≤ exponent.natAbs then
    let zero : Float := if negative then -0.0 else 0.0
    if 0 ≤ exponent && (whole ++ fraction).any (· ≠ '0') then none else some (.real zero)
  else (Decimal.scaled? negative whole fraction exponent).map .real

/-- A number without fraction and exponent. Negative zero and numbers that no 64-bit word holds are
floating-point numbers. -/
def wholeNumber? (negative : Bool) (whole : List Char) : Option JsonNumber :=
  let n := Decimal.readDigits 0 whole
  if negative then
    if 0 < n && n ≤ signedBound then some (.whole (-n))
    else (Decimal.scaled? true whole [] 0).map .real
  else if n < wordCount then some (.whole n)
  else (Decimal.scaled? false whole [] 0).map .real

/-- A number and what follows it. -/
def readNumber? (cs : List Char) : Option (JsonNumber × List Char) := do
  let (negative, cs) := match cs with
    | '-' :: rest => (true, rest)
    | cs => (false, cs)
  let (whole, rest) ← splitWhole? cs
  let (fraction, rest) ← match rest with
    | '.' :: rest =>
      match Decimal.splitDigits rest with
      | ([], _) => none
      | (digits, rest) => some (digits, rest)
    | rest => some ([], rest)
  match rest with
  | 'e' :: rest =>
    let (exponent, rest) ← splitExponent? rest
    return (← scaledNumber? negative whole fraction exponent, rest)
  | 'E' :: rest =>
    let (exponent, rest) ← splitExponent? rest
    return (← scaledNumber? negative whole fraction exponent, rest)
  | rest =>
    if fraction.isEmpty then return (← wholeNumber? negative whole, rest)
    else return (← scaledNumber? negative whole fraction 0, rest)

mutual

/-- A value and what follows it. Every call that reads no character of its own is made with less
fuel by a call that has read one, so twice the length of the text is fuel enough. -/
def readValue? : Nat → List Char → Option (Json × List Char)
  | 0, _ => none
  | fuel + 1, cs =>
    match skipBlanks cs with
    | 'n' :: 'u' :: 'l' :: 'l' :: rest => some (.null, rest)
    | 't' :: 'r' :: 'u' :: 'e' :: rest => some (.bool true, rest)
    | 'f' :: 'a' :: 'l' :: 's' :: 'e' :: rest => some (.bool false, rest)
    | '"' :: rest => (readQuoted? rest).map fun (text, rest) => (.str (String.ofList text), rest)
    | '[' :: rest =>
      match skipBlanks rest with
      | ']' :: rest => some (.array [], rest)
      | rest => (readItems? fuel rest).map fun (items, rest) => (.array items, rest)
    | '\x7b' :: rest =>
      match skipBlanks rest with
      | '\x7d' :: rest => some (.object [], rest)
      | rest => (readEntries? fuel rest).map fun (entries, rest) => (.object entries, rest)
    | cs => (readNumber? cs).map fun (n, rest) => (.number n, rest)

/-- The items of an array, at least one, and what follows its bracket. -/
def readItems? : Nat → List Char → Option (List Json × List Char)
  | 0, _ => none
  | fuel + 1, cs =>
    match readValue? fuel cs with
    | none => none
    | some (item, rest) =>
      match skipBlanks rest with
      | ']' :: rest => some ([item], rest)
      | ',' :: rest => (readItems? fuel rest).map fun (items, rest) => (item :: items, rest)
      | _ => none

/-- The entries of an object, at least one, and what follows its brace. -/
def readEntries? : Nat → List Char → Option (List (String × Json) × List Char)
  | 0, _ => none
  | fuel + 1, cs =>
    match skipBlanks cs with
    | '"' :: rest =>
      match readQuoted? rest with
      | none => none
      | some (key, rest) =>
        match skipBlanks rest with
        | ':' :: rest =>
          match readValue? fuel rest with
          | none => none
          | some (value, rest) =>
            let entry := (String.ofList key, value)
            match skipBlanks rest with
            | '\x7d' :: rest => some ([entry], rest)
            | ',' :: rest =>
              (readEntries? fuel rest).map fun (entries, rest) => (entry :: entries, rest)
            | _ => none
        | _ => none
    | _ => none

end

/-- The document of a text. -/
def ofChars? (cs : List Char) : Option Json :=
  match readValue? (2 * cs.length + 2) cs with
  | some (document, rest) => if (skipBlanks rest).isEmpty then some document else none
  | none => none

/-- The document of a text. -/
def parse? (text : String) : Option Json := ofChars? text.toList

end Pipewright.Json
