import Pipewright.Decimal.Reading
import Pipewright.Json.Reader
import Pipewright.Toml.Basic

/-! # Numbers and moments in TOML documents
Whole numbers are decimal, or have a prefix for another base, and fit in 64 bits. Underscores may
stand between any two digits. Moments are checked, but not kept. -/

namespace Pipewright.Toml

/-- A digit of a base up to sixteen. -/
def isDigitOf (base : Nat) (c : Char) : Bool := (Json.hexValue? c).any (· < base)

/-- More digits, each maybe behind an underscore, and what follows them. -/
def moreDigits (base : Nat) : List Char → List Char × List Char
  | [] => ([], [])
  | '_' :: c :: rest =>
    if isDigitOf base c then
      let (digits, rest) := moreDigits base rest
      (c :: digits, rest)
    else ([], '_' :: c :: rest)
  | c :: rest =>
    if isDigitOf base c then
      let (digits, rest) := moreDigits base rest
      (c :: digits, rest)
    else ([], c :: rest)

/-- At least one digit, and what follows the digits. -/
def someDigits? (base : Nat) : List Char → Option (List Char × List Char)
  | [] => none
  | c :: rest =>
    if isDigitOf base c then
      let (digits, rest) := moreDigits base rest
      some (c :: digits, rest)
    else none

/-- The digits of a decimal number: zero alone, or digits that start with another one. -/
def wholeDigits? : List Char → Option (List Char × List Char)
  | '0' :: rest => some (['0'], rest)
  | cs => someDigits? 10 cs

/-- The number of digits of a base. -/
def digitsValue (base : Nat) (digits : List Char) : Nat :=
  digits.foldl (fun n c => base * n + (Json.hexValue? c).getD 0) 0

/-- A whole number, if 64 bits hold it. -/
def whole? (n : Int) : Option Value :=
  if (word? n).isSome then some (.whole n) else none

/-- The digits behind the prefix of a base, and what follows them. -/
def readBased? (base : Nat) (cs : List Char) : Option (Value × List Char) := do
  let (digits, rest) ← someDigits? base cs
  return (← whole? (digitsValue base digits), rest)

/-- The floating-point number that its parts spell, unless it is too large. -/
def real? (negative : Bool) (whole fraction : List Char) (exponent : Int) : Option Value :=
  let x := Decimal.nearestFloat negative (Decimal.readDigits (Decimal.readDigits 0 whole) fraction)
    (exponent - fraction.length)
  if x == 1 / 0 then none else some (.real x)

/-- The exponent of a number, and what follows it. -/
def readExponent? (cs : List Char) : Option (Int × List Char) := do
  let (negative, cs) := Decimal.splitSign cs
  let (digits, rest) ← someDigits? 10 cs
  let n : Int := digitsValue 10 digits
  return (if negative then -n else n, rest)

/-- A number behind its sign, and what follows it. -/
def readUnsigned? (negative : Bool) : List Char → Option (Value × List Char)
  | 'i' :: 'n' :: 'f' :: rest => some (.real (if negative then -1 / 0 else 1 / 0), rest)
  | 'n' :: 'a' :: 'n' :: rest => some (.real (0 / 0), rest)
  | cs => do
    let (whole, rest) ← wholeDigits? cs
    let (fraction, rest) ← match rest with
      | '.' :: rest => (someDigits? 10 rest).map fun found => (some found.1, found.2)
      | rest => some (none, rest)
    let (exponent, rest) ← match rest with
      | 'e' :: rest => (readExponent? rest).map fun found => (some found.1, found.2)
      | 'E' :: rest => (readExponent? rest).map fun found => (some found.1, found.2)
      | rest => some (none, rest)
    if fraction.isNone && exponent.isNone then
      let n : Int := digitsValue 10 whole
      return (← whole? (if negative then -n else n), rest)
    else return (← real? negative whole (fraction.getD []) (exponent.getD 0), rest)

/-- A number, and what follows it. -/
def readNumber? : List Char → Option (Value × List Char)
  | '0' :: 'x' :: rest => readBased? 16 rest
  | '0' :: 'o' :: rest => readBased? 8 rest
  | '0' :: 'b' :: rest => readBased? 2 rest
  | '-' :: rest => readUnsigned? true rest
  | '+' :: rest => readUnsigned? false rest
  | cs => readUnsigned? false cs

/-! ## Moments -/

/-- A number of two digits between bounds, and what follows it. -/
def twoDigits? (low high : Nat) : List Char → Option (Nat × List Char)
  | a :: b :: rest =>
    let n := digitsValue 10 [a, b]
    if a.isDigit && b.isDigit && low ≤ n && n ≤ high then some (n, rest) else none
  | _ => none

/-- The number of days of a month. -/
def daysOf (year month : Nat) : Nat :=
  if month = 2 then
    if year % 4 = 0 && (year % 100 ≠ 0 || year % 400 = 0) then 29 else 28
  else if month = 4 || month = 6 || month = 9 || month = 11 then 30
  else 31

/-- What follows a character that must come next. -/
def expect? (c : Char) : List Char → Option (List Char)
  | [] => none
  | found :: rest => if found = c then some rest else none

/-- What follows a date. -/
def skipDate? (cs : List Char) : Option (List Char) := do
  let (century, rest) ← twoDigits? 0 99 cs
  let (year, rest) ← twoDigits? 0 99 rest
  let (month, rest) ← twoDigits? 1 12 (← expect? '-' rest)
  let (_, rest) ← twoDigits? 1 (daysOf (100 * century + year) month) (← expect? '-' rest)
  return rest

/-- What follows a time of day. -/
def skipTime? (cs : List Char) : Option (List Char) := do
  let (_, rest) ← twoDigits? 0 23 cs
  let (_, rest) ← twoDigits? 0 59 (← expect? ':' rest)
  let (_, rest) ← twoDigits? 0 60 (← expect? ':' rest)
  match rest with
  | '.' :: c :: more => return if c.isDigit then more.dropWhile Char.isDigit else rest
  | rest => return rest

/-- What follows the distance from universal time, if there is one. -/
def skipOffset : List Char → List Char
  | [] => []
  | c :: rest =>
    if c = 'Z' || c = 'z' then rest
    else if c = '+' || c = '-' then
      let after := do
        let (_, rest) ← twoDigits? 0 23 rest
        let (_, rest) ← twoDigits? 0 59 (← expect? ':' rest)
        return rest
      after.getD (c :: rest)
    else c :: rest

/-- What follows a time of day behind a date, if there is one. -/
def skipTimeBehindDate : List Char → List Char
  | [] => []
  | c :: rest =>
    if c = 'T' || c = 't' || c = ' ' then ((skipTime? rest).map skipOffset).getD (c :: rest)
    else c :: rest

/-- What follows a moment. -/
def skipMoment? (cs : List Char) : Option (List Char) :=
  ((skipDate? cs).map skipTimeBehindDate).orElse fun _ => skipTime? cs

end Pipewright.Toml
