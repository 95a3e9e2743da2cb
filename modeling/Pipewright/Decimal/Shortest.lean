/-! # Shortest decimals
The decimal fraction with the fewest digits that is nearer to a floating-point number than to any
other: every multiple of a power of ten inside the interval of reals that round to the number reads
back as it, so the coarsest grid with such a point gives the fewest digits. All comparisons are
between natural numbers. -/

namespace Pipewright

/-! ## Words
Whole numbers, and the bits of floating-point numbers, are words of 64 bits. -/

/-- How many values a word of 64 bits has. -/
def wordCount : Nat := 18446744073709551616

/-- A signed word holds the whole numbers below this one that are not below its negation. -/
def signedBound : Nat := 9223372036854775808

/-- The signed word of a whole number, if there is one. -/
def word? (n : Int) : Option Int64 :=
  if -(signedBound : Int) ≤ n && n < signedBound then some (Int64.ofInt n) else none

example : wordCount = 2 * signedBound := by decide

/-! ## Decimals -/

/-- The decimal fraction `coefficient * 10 ^ exponent`. -/
structure Decimal where
  /-- The digits, read as a whole number. -/
  coefficient : Nat
  /-- The power of ten they are multiplied by. -/
  exponent : Int
deriving DecidableEq, Repr

namespace Decimal

/-- Which of two equally near grid points is taken. -/
inductive Tie where
  /-- The one farther from zero. -/
  | away
  /-- The even one. -/
  | even
deriving DecidableEq, Repr

/-- The magnitude `mantissa * 2 ^ exponent` of a floating-point number. -/
structure Magnitude where
  /-- The significant bits, read as a whole number. -/
  mantissa : Nat
  /-- The power of two they are multiplied by. -/
  exponent : Int
  /-- The next smaller number is only half as far away as the next larger one. -/
  narrowBelow : Bool
deriving DecidableEq, Repr

/-- How many fractions a floating-point number can have, of which its lower bits tell one. -/
def fractionCount : Nat := 4503599627370496

/-- Take a finite number's magnitude from its bits. -/
def Magnitude.ofFloat (x : Float) : Magnitude :=
  let bits : Nat := x.toBits.toNat
  let fraction : Nat := bits % fractionCount
  let biased : Nat := bits / fractionCount % 2048
  if biased = 0 then ⟨fraction, -1074, false⟩
  else ⟨fraction + fractionCount, (biased : Int) - 1075, fraction = 0 && 1 < biased⟩

/-- The sign bit of a number is set, as it is for negative zero. -/
def isNegative (x : Float) : Bool := signedBound ≤ x.toBits.toNat

/-- The interval of reals that round to a magnitude, as natural numbers over one denominator: the
value and both ends are multiples of a quarter of the last bit. -/
structure Interval where
  /-- The value itself. -/
  value : Nat
  /-- The lower end. -/
  low : Nat
  /-- The upper end. -/
  high : Nat
  /-- The ends round to the value too. -/
  closed : Bool
  /-- One step of the decimal grid. -/
  step : Nat
deriving DecidableEq, Repr

/-- The interval of a magnitude, scaled so that the multiples of `10 ^ grid` are the multiples of
`step`. -/
def Magnitude.interval (x : Magnitude) (grid : Int) : Interval :=
  let quarter := x.exponent - 2
  let scale := Nat.pow 2 quarter.toNat * Nat.pow 10 (-grid).toNat
  { value := 4 * x.mantissa * scale
    low := (4 * x.mantissa - if x.narrowBelow then 1 else 2) * scale
    high := (4 * x.mantissa + 2) * scale
    closed := x.mantissa % 2 = 0
    step := Nat.pow 10 grid.toNat * Nat.pow 2 (-quarter).toNat }

/-- Whether a multiple of the grid's step lies in the interval. -/
def Interval.holds (i : Interval) (n : Nat) : Bool :=
  if i.closed then i.low ≤ n * i.step && n * i.step ≤ i.high
  else i.low < n * i.step && n * i.step < i.high

/-- The multiple of the step that lies in the interval and is nearest to the value. Of all
multiples only the two beside the value have to be tried. -/
def Interval.nearest? (i : Interval) (tie : Tie) : Option Nat :=
  let below := i.value / i.step
  let above := below + 1
  if i.holds below then
    if i.holds above then
      let down := i.value - below * i.step
      let up := above * i.step - i.value
      if down < up then some below
      else if up < down then some above
      else match tie with
        | .away => some above
        | .even => some (if below % 2 = 0 then below else above)
    else some below
  else if i.holds above then some above
  else none

/-- Try a grid and then finer ones, a bounded number of times. -/
def Magnitude.searchFrom (x : Magnitude) (tie : Tie) : Nat → Int → Decimal
  | 0, grid => ⟨(x.interval grid).value / (x.interval grid).step, grid⟩
  | tries + 1, grid =>
    match (x.interval grid).nearest? tie with
    | some n => ⟨n, grid⟩
    | none => x.searchFrom tie tries (grid - 1)

/-- A power of ten above every real that rounds to the magnitude, and at most two places above the
first digit. -/
def Magnitude.topGrid (x : Magnitude) : Int :=
  ((x.mantissa.log2 : Int) + 1 + x.exponent) * 30103 / 100000 + 1

/-- The decimal with the fewest digits that reads back as the magnitude; of two such, the nearer.
Seventeen digits always suffice. -/
def Magnitude.shortest (x : Magnitude) (tie : Tie) : Decimal :=
  if x.mantissa = 0 then ⟨0, 0⟩ else x.searchFrom tie 21 x.topGrid

end Decimal

end Pipewright
