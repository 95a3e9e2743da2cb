import Pipewright.Operation.Basic

/-! # The machine that runs programs
What a running program can see and change: its variables, the world of nodes and progress reports,
and how many steps it may still take. A program comes to a halt in several ways, of which some can
be caught by the program itself. -/

namespace Pipewright.Host

/-- What a running program sees and changes. -/
structure Machine where
  /-- The variables, the innermost first. -/
  scope : Entries
  /-- The nodes and the progress reports. -/
  world : World
  /-- How many steps may still be taken. -/
  budget : Nat

/-- Why a program, or a part of it, does not go on. -/
inductive Halt where
  /-- A value was raised, by the program or by what it called. -/
  | thrown (d : Datum)
  /-- The program does what the language does not allow. -/
  | fault
  /-- There are no more steps, or calls are nested too deeply. -/
  | exhausted
  /-- The function is left with a value. -/
  | returned (d : Datum)
  /-- The innermost loop is left. -/
  | left
  /-- The innermost loop goes on with its next round. -/
  | nextRound

/-- The value that a program gets to see when it catches a halt, if it can. A fault of the program
itself is seen as a map. -/
def Halt.caught? : Halt → Option Datum
  | .thrown d => some d
  | .fault => some (.map [])
  | _ => none

/-- What is done on a machine, with a value in the end. What was changed before a halt stays. -/
abbrev Eval := ExceptT Halt (StateM Machine)

/-- The steps that a program may take. -/
def maxSteps : Nat := 1000000

/-- How deeply calls may be nested. -/
def maxCalls : Nat := 64

/-- Go on with a value, or else stop because the language does not allow it. -/
def require {α : Type} : Option α → Eval α
  | some a => pure a
  | none => throw .fault

/-- Raise a message. -/
def raise {α : Type} (message : String) : Eval α := throw (.thrown (.text message))

/-- Go on with a value, or raise a message. -/
def demand {α : Type} (message : String) : Option α → Eval α
  | some a => pure a
  | none => raise message

/-- Take a step. -/
def tick : Eval Unit := do
  let m ← get
  match m.budget with
  | 0 => throw .exhausted
  | budget + 1 => set { m with budget := budget }

/-- Do something with the world. -/
def withWorld {α : Type} (f : World → α × World) : Eval α := do
  let m ← get
  let (a, w) := f m.world
  set { m with world := w }
  return a

/-- Do something, and drop the variables that it has declared. -/
def inBlock {α : Type} (body : Eval α) : Eval α :=
  ExceptT.mk fun m =>
    let (result, after) := body.run.run m
    (result, { after with scope := after.scope.drop (after.scope.length - m.scope.length) })

/-- Do something that sees only some variables of its own. -/
def withScope {α : Type} (scope : Entries) (body : Eval α) : Eval α :=
  ExceptT.mk fun m =>
    let (result, after) := body.run.run { m with scope := scope }
    (result, { after with scope := m.scope })

/-- The value of a function's body. Leaving the function gives its value; there is no loop to leave
outside of one. -/
def asFunction (body : Eval Datum) : Eval Datum :=
  ExceptT.mk fun m =>
    match body.run.run m with
    | (.error (.returned d), after) => (.ok d, after)
    | (.error .left, after) => (.error .fault, after)
    | (.error .nextRound, after) => (.error .fault, after)
    | result => result

/-- A round of a loop; whether there is to be another one. -/
def asRound (body : Eval Datum) : Eval Bool :=
  ExceptT.mk fun m =>
    match body.run.run m with
    | (.ok _, after) => (.ok true, after)
    | (.error .left, after) => (.ok false, after)
    | (.error .nextRound, after) => (.ok true, after)
    | (.error halt, after) => (.error halt, after)

/-- Do something, and if it comes to a halt that can be caught, do something else with what is seen
of that. Raising nothing there raises the first halt again. -/
def attempt (body : Eval Datum) (handler : Datum → Eval Datum) : Eval Datum :=
  ExceptT.mk fun m =>
    match body.run.run m with
    | (.ok d, after) => (.ok d, after)
    | (.error halt, after) =>
      match halt.caught? with
      | none => (.error halt, after)
      | some d =>
        match (handler d).run.run after with
        | (.ok _, after) => (.ok .unit, after)
        | (.error (.thrown .unit), after) => (.error halt, after)
        | (.error other, after) => (.error other, after)

/-! ## Variables -/

/-- Declare a variable. -/
def declare (name : String) (d : Datum) : Eval Unit :=
  modify fun m => { m with scope := (name, d) :: m.scope }

/-- The value of a variable. -/
def readVariable (name : String) : Eval Datum := do
  require (Keyed.lookup name (← get).scope)

/-- Change the value of the innermost variable of a name. -/
def writeVariable (name : String) (d : Datum) : Eval Unit := do
  let m ← get
  if Keyed.contains name m.scope then
    set { m with scope := Keyed.modify name (fun _ => d) m.scope }
  else throw .fault

end Pipewright.Host
