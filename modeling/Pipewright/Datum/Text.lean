import Pipewright.Datum.Basic

/-! # Texts of script values
The text that a script gets for a value, the text by which the value is shown inside arrays and
maps, and the text of a value that is raised and not caught. The first and the second differ for
texts, which are quoted inside, for floating-point numbers, and for the value that stands for
nothing; the last two differ for what the host hands out, which only scripts know by a short
name. -/

namespace Pipewright.Datum

/-- A floating-point number as scripts write it: with all its digits from `1e-7` up to `1e13`, else
with an exponent. Negative zero has no sign. -/
def showFloat (x : Float) : String :=
  if x.isNaN then "NaN"
  else if x.isInf then (if x < 0 then "-inf" else "inf")
  else
    let digits := (Decimal.Magnitude.ofFloat x).shortest .away
    if digits.coefficient = 0 then "0.0"
    else
      let plain := !(x.abs < 1e-7) && !(1e13 < x.abs)
      let text := if plain then digits.positional else digits.scientific false
      String.ofList (if Decimal.isNegative x then '-' :: text else text)

/-! ## Inside arrays and maps -/

mutual

/-- The text by which a value is shown inside arrays and maps, with a given text for what the host
hands out. -/
def inspectWith (handedOut : Datum → String) : Datum → String
  | .unit => "()"
  | .bool b => Value.showBool b
  | .int n => Value.showInt n
  | .float x => Decimal.shown x
  | .text s => Text.quoted s
  | .array items => "[" ++ ", ".intercalate (inspectItems handedOut items) ++ "]"
  | .map entries => "#\x7b" ++ ", ".intercalate (inspectEntries handedOut entries) ++ "\x7d"
  | d => handedOut d

/-- The texts of a list of values. -/
def inspectItems (handedOut : Datum → String) : List Datum → List String
  | [] => []
  | item :: items => inspectWith handedOut item :: inspectItems handedOut items

/-- The texts of a list of entries. -/
def inspectEntries (handedOut : Datum → String) : List (String × Datum) → List String
  | [] => []
  | (key, d) :: entries =>
    (Text.quoted key ++ ": " ++ inspectWith handedOut d) :: inspectEntries handedOut entries

end

/-- The text by which scripts know what the host hands out. -/
def shortText : Datum → String
  | .type t => t.display
  | .node handle => handle.display
  | d => d.kind

/-! ## On its own -/

/-- The text of a value, with a given text for arrays, maps and what the host hands out. -/
def showWith (other : Datum → String) : Datum → String
  | .unit => ""
  | .float x => showFloat x
  | .text s => s
  | d => other d

/-- The text that a script gets for a value. -/
def display (d : Datum) : String :=
  d.showWith fun
    | .hint a => a.display
    | d => d.inspectWith shortText

/-- The text of a value that is raised and not caught. -/
def raisedText (d : Datum) : String := d.showWith (inspectWith hostKind)

end Pipewright.Datum
