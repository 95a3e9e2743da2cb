import Pipewright.Decimal.Shortest

/-! # Writing floating-point numbers
Two written forms of a floating-point number, both with its shortest digits: the plain form that is
shown to people and stands in scripts, and the form that stands in JSON documents. They differ in
where positional notation ends, in the sign of a positive exponent and in the way a tie goes. -/

namespace Pipewright.Decimal

/-- The decisions of a written form. Positional notation is used from `10 ^ leastPlain` up to, but
not including, `10 ^ 16`. -/
structure Layout where
  /-- The least power of ten that is written positionally. -/
  leastPlain : Int
  /-- A positive exponent has a plus sign. -/
  plusSign : Bool
  /-- Which way a tie between two shortest decimals goes. -/
  tie : Tie
deriving DecidableEq, Repr

/-- The form shown to people: `0.0001`, `1e-5`, `1e16`. -/
def Layout.shown : Layout := ⟨-4, false, .away⟩

/-- The form in JSON documents: `0.00001`, `1e-6`, `1e+16`. -/
def Layout.json : Layout := ⟨-5, true, .even⟩

/-- A run of zeros. -/
def zeros (n : Nat) : List Char := List.replicate n '0'

/-- Positional notation, with at least one digit on either side of the point. -/
def positional (d : Decimal) : List Char :=
  let digits := Nat.toDigits 10 d.coefficient
  if 0 ≤ d.exponent then digits ++ zeros d.exponent.toNat ++ ['.', '0']
  else
    let places := (-d.exponent).toNat
    if places < digits.length then
      digits.take (digits.length - places) ++ '.' :: digits.drop (digits.length - places)
    else '0' :: '.' :: (zeros (places - digits.length) ++ digits)

/-- The power of ten of the first digit. -/
def leadingPower (d : Decimal) : Int :=
  d.exponent + (Nat.toDigits 10 d.coefficient).length - 1

/-- One digit, a point and the others if there are any, and the power of ten. -/
def scientific (plusSign : Bool) (d : Decimal) : List Char :=
  let power := d.leadingPower
  let exponent := (if plusSign && 0 ≤ power then "+" else "") ++ toString power
  match Nat.toDigits 10 d.coefficient with
  | [] => []
  | [digit] => digit :: 'e' :: exponent.toList
  | digit :: others => digit :: '.' :: (others ++ 'e' :: exponent.toList)

/-- A decimal in the notation that the layout has for its size. -/
def Layout.write (layout : Layout) (d : Decimal) : List Char :=
  if d.coefficient = 0 then ['0', '.', '0']
  else if layout.leastPlain ≤ d.leadingPower && d.leadingPower < 16 then d.positional
  else d.scientific layout.plusSign

/-- A finite number with its sign, that of negative zero included. -/
def Layout.writeFinite (layout : Layout) (x : Float) : List Char :=
  let digits := layout.write ((Magnitude.ofFloat x).shortest layout.tie)
  if isNegative x then '-' :: digits else digits

/-- A floating-point number as it is shown. -/
def shown (x : Float) : String :=
  if x.isNaN then "NaN"
  else if x.isInf then (if isNegative x then "-inf" else "inf")
  else String.ofList (Layout.shown.writeFinite x)

example : positional ⟨125, -3⟩ = ['0', '.', '1', '2', '5'] := by decide

example : scientific true ⟨15, 29⟩ = ['1', '.', '5', 'e', '+', '3', '0'] := by decide

end Pipewright.Decimal
