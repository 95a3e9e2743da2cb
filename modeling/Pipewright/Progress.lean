import Pipewright.Decimal.Layout
import Pipewright.Text.Quoted

/-! # Progress reports
A report tells how far a piece of work is, and folds that into how far the whole is. A callback
takes reports; a callback for one piece of another one's work passes its own overall progress on as
the progress of that piece. The board holds what all callbacks have seen.

The numbers may be of any type with the arithmetic that is needed, so the same definitions serve
floating-point numbers and exact ones. -/

namespace Pipewright.Progress

universe u

variable {α : Type u}

/-- A whole number is converted to the nearest floating-point number. -/
instance floatIntCast : IntCast Float := ⟨Float.ofInt⟩

/-- The latest news of a piece of work. -/
structure Report (α : Type u) where
  /-- The overall progress, from zero to one. -/
  total : α
  /-- The name of the piece. -/
  pieceName : String
  /-- The number of the piece, from zero up. -/
  piece : Int
  /-- How many pieces there are. -/
  pieces : Int

/-- The overall progress when a fraction of one piece is done. Fewer than one piece count as
one. -/
def overall [Add α] [Mul α] [Div α] [OfNat α 1] [IntCast α] (fraction : α) (piece pieces : Int) :
    α :=
  let perPiece := 1 / ((max pieces 1 : Int) : α)
  perPiece * (piece : α) + perPiece * fraction

/-- The report of a fraction of one piece. -/
def Report.of [Add α] [Mul α] [Div α] [OfNat α 1] [IntCast α] (pieceName : String) (fraction : α)
    (piece pieces : Int) : Report α :=
  ⟨overall fraction piece pieces, pieceName, piece, pieces⟩

/-- The report of a callback that has seen none. -/
def Report.blank [OfNat α 0] : Report α := ⟨0, "", 0, 0⟩

/-- The text of a report. -/
def Report.outline (r : Report Float) : String :=
  "ProgressReport \x7b total_progress: " ++ Decimal.shown r.total ++ ", piece_name: " ++
    Text.quoted r.pieceName ++ ", piece_number: " ++ toString r.piece ++
    ", number_of_pieces: " ++ toString r.pieces ++ " \x7d"

/-- A callback. Copies of one share the cell in which the latest report stands. -/
inductive Callback where
  /-- It may have an outlet, into which it also puts its reports. -/
  | plain (cell : Nat) (outlet : Option Nat)
  /-- Its overall progress is the progress of one piece of the parent's work. -/
  | sub (cell : Nat) (parent : Callback) (piece pieces : Int)
deriving DecidableEq, Repr

namespace Callback

/-- The cell in which the latest report stands. -/
def cell : Callback → Nat
  | .plain cell _ => cell
  | .sub cell _ _ _ => cell

/-- The outlet of its own. -/
def outlet? : Callback → Option Nat
  | .plain _ outlet => outlet
  | .sub _ _ _ _ => none

/-- Whether its reports go anywhere but into its cell. -/
def hasSink : Callback → Bool
  | .plain _ outlet => outlet.isSome
  | .sub _ _ _ _ => true

end Callback

/-- Where the reports of a callback wait until they are taken. -/
structure Outlet (α : Type u) where
  /-- Somebody still takes them. -/
  attended : Bool
  /-- The reports that wait, oldest first. -/
  waiting : List (Report α)

/-- What all callbacks have seen. -/
structure Board (α : Type u) where
  /-- The latest report of each callback, by its cell. -/
  cells : Array (Report α)
  /-- The outlets. -/
  outlets : Array (Outlet α)

namespace Board

/-- The board before there is any callback. -/
def empty : Board α := ⟨#[], #[]⟩

/-! ## New callbacks -/

/-- A callback that only keeps the latest report. -/
def addPlain [OfNat α 0] (b : Board α) : Callback × Board α :=
  (.plain b.cells.size none, { b with cells := b.cells.push .blank })

/-- A callback with an outlet. -/
def addOutlet [OfNat α 0] (b : Board α) : Callback × Board α :=
  (.plain b.cells.size (some b.outlets.size),
    ⟨b.cells.push .blank, b.outlets.push ⟨true, []⟩⟩)

/-- A callback for one piece of another one's work. -/
def addSub [OfNat α 0] (b : Board α) (parent : Callback) (piece pieces : Int) :
    Callback × Board α :=
  (.sub b.cells.size parent piece pieces, { b with cells := b.cells.push .blank })

/-! ## Reports -/

/-- Note a report in a cell. -/
def note (b : Board α) (cell : Nat) (r : Report α) : Board α :=
  { b with cells := b.cells.modify cell fun _ => r }

/-- Put a report into an outlet. It is lost if nobody takes it. -/
def emit (b : Board α) (outlet : Nat) (r : Report α) : Board α :=
  { b with outlets := b.outlets.modify outlet fun o =>
      if o.attended then { o with waiting := o.waiting ++ [r] } else o }

/-- Report a fraction of a piece to a callback, and so to all callbacks it passes reports on to. -/
def report [Add α] [Mul α] [Div α] [OfNat α 1] [IntCast α] (b : Board α) :
    Callback → String → α → Int → Int → Board α
  | .plain cell outlet, pieceName, fraction, piece, pieces =>
    let r := Report.of pieceName fraction piece pieces
    let b := b.note cell r
    match outlet with
    | none => b
    | some o => b.emit o r
  | .sub cell parent ofParent pieceCount, pieceName, fraction, piece, pieces =>
    let r := Report.of pieceName fraction piece pieces
    (b.note cell r).report parent r.pieceName r.total ofParent pieceCount

/-- The latest report of a callback. -/
def latest [OfNat α 0] (b : Board α) (c : Callback) : Report α :=
  (b.cells[c.cell]?).getD .blank

/-- The outlet of a callback, as long as somebody takes its reports. -/
def attended? (b : Board α) (c : Callback) : Option (Nat × Outlet α) :=
  match c.outlet? with
  | none => none
  | some o =>
    match b.outlets[o]? with
    | some found => if found.attended then some (o, found) else none
    | none => none

/-- Take the reports that wait in the outlet of a callback; none if nobody may take them. -/
def take (b : Board α) (c : Callback) : Option (List (Report α)) × Board α :=
  match b.attended? c with
  | none => (none, b)
  | some (o, found) =>
    (some found.waiting, { b with outlets := b.outlets.modify o fun _ => ⟨true, []⟩ })

/-- Stop taking the reports of a callback; whether somebody took them before. -/
def hangUp (b : Board α) (c : Callback) : Bool × Board α :=
  match b.attended? c with
  | none => (false, b)
  | some (o, _) => (true, { b with outlets := b.outlets.modify o fun _ => ⟨false, []⟩ })

/-- The text of a callback. -/
def outline (b : Board Float) (c : Callback) : String :=
  "ProgressCallback \x7b has_sink: " ++ (if c.hasSink then "true" else "false") ++
    ", last_report: " ++ (b.latest c).outline ++ " \x7d"

end Board

end Pipewright.Progress
