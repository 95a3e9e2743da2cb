import Pipewright.Decimal.Shortest

/-! # Reading floating-point numbers
A decimal text becomes the floating-point number nearest to it. The text may have a sign, digits on
either side of a point, and an exponent; infinities and the number that is none have names. -/

namespace Pipewright.Decimal

/-- Fold digits into a number. -/
def readDigits (start : Nat) (digits : List Char) : Nat :=
  digits.foldl (fun n c => 10 * n + (c.toNat - 48)) start

/-- A run of digits and what follows it. -/
def splitDigits (cs : List Char) : List Char × List Char :=
  (cs.takeWhile Char.isDigit, cs.dropWhile Char.isDigit)

/-- A run of digits and what follows it make up the text. -/
theorem splitDigits_append (cs : List Char) : (splitDigits cs).1 ++ (splitDigits cs).2 = cs :=
  List.takeWhile_append_dropWhile

/-- The floating-point number nearest to `coefficient * 10 ^ exponent`. Powers of ten that are far
out of range are not computed. -/
def nearestFloat (negative : Bool) (coefficient : Nat) (exponent : Int) : Float :=
  let reach := exponent + (Nat.toDigits 10 coefficient).length
  let magnitude : Float :=
    if coefficient = 0 || reach < -400 then 0
    else if 400 < reach then 1 / 0
    else if 0 ≤ exponent then Float.ofScientific coefficient false exponent.toNat
    else Float.ofScientific coefficient true (-exponent).toNat
  if negative then -magnitude else magnitude

/-- A sign, if there is one, and the text behind it. -/
def splitSign : List Char → Bool × List Char
  | '-' :: rest => (true, rest)
  | '+' :: rest => (false, rest)
  | cs => (false, cs)

/-- An exponent of at least one digit, to the end of the text. -/
def readExponent? (cs : List Char) : Option Int :=
  let (negative, digits) := splitSign cs
  if digits.isEmpty || !digits.all Char.isDigit then none
  else
    let n : Int := readDigits 0 digits
    some (if negative then -n else n)

/-- A number without its sign: digits with at most one point, at least one digit in all, and maybe
an exponent. -/
def readUnsigned? (negative : Bool) (cs : List Char) : Option Float :=
  let (whole, rest) := splitDigits cs
  let (fraction, rest) : List Char × List Char :=
    match rest with
    | '.' :: rest => splitDigits rest
    | rest => ([], rest)
  if whole.isEmpty && fraction.isEmpty then none
  else
    let coefficient := readDigits (readDigits 0 whole) fraction
    let number (exponent : Int) : Float :=
      nearestFloat negative coefficient (exponent - fraction.length)
    match rest with
    | [] => some (number 0)
    | 'e' :: rest => (readExponent? rest).map number
    | 'E' :: rest => (readExponent? rest).map number
    | _ => none

/-- Read a number. Names of infinities and of the number that is none may be in either case. -/
def readFloat? (text : String) : Option Float :=
  let (negative, cs) := splitSign text.toList
  let infinity : Float := 1 / 0
  match cs.map Char.toLower with
  | ['i', 'n', 'f'] => some (if negative then -infinity else infinity)
  | ['i', 'n', 'f', 'i', 'n', 'i', 't', 'y'] => some (if negative then -infinity else infinity)
  | ['n', 'a', 'n'] => some (0 / 0)
  | _ => readUnsigned? negative cs

/-! ## Scaled decimals
The reading of decimals in JSON documents: the leading digits that a 64-bit word holds are scaled
by a power of ten in floating-point arithmetic. The conversion and every scaling round, so a text
of many digits may be read one unit in the last place away from the nearest number. -/

/-- Extend a number by leading digits as long as 64 bits hold it; the count of those left over. -/
def clipDigits (start : Nat) : List Char → Nat × Nat
  | [] => (start, 0)
  | c :: rest =>
    let next := 10 * start + (c.toNat - 48)
    if next < wordCount then clipDigits next rest else (start, rest.length + 1)

/-- Scale a magnitude by a power of ten. Powers beyond the range of floating-point numbers take
several steps, of which `steps` bounds the number; a result that is too large is refused. -/
def scale? (steps : Nat) (magnitude : Float) (exponent : Int) : Option Float :=
  match steps with
  | 0 => none
  | steps + 1 =>
    if exponent.natAbs ≤ 308 then
      let power := Float.ofScientific 1 false exponent.natAbs
      if 0 ≤ exponent then
        let scaled := magnitude * power
        if scaled.isInf then none else some scaled
      else some (magnitude / power)
    else if magnitude == 0 then some magnitude
    else if 0 ≤ exponent then none
    else scale? steps (magnitude / Float.ofScientific 1 false 308) (exponent + 308)

/-- The number read from the digits before and behind the point and the exponent. A word needs at
most two steps to be scaled down to zero. -/
def scaled? (negative : Bool) (whole fraction : List Char) (exponent : Int) : Option Float :=
  let (start, dropped) := clipDigits 0 whole
  let (significand, left) := clipDigits start fraction
  let power := exponent + dropped - (fraction.length - left : Nat)
  (scale? 4 (UInt64.ofNat significand).toFloat power).map fun x => if negative then -x else x

end Pipewright.Decimal
