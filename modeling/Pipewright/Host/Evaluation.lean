import Pipewright.Host.Environment
import Pipewright.Host.Operators

/-! # Running programs
What the expressions, statements and functions of a program do on a machine. Expressions and
statements are run by recursion on their trees; a call of a function of the program runs its tree at
the next level of nesting, of which there is a bounded number, and a loop has no more rounds than
there are steps left. -/

namespace Pipewright.Host

open Script (Expr Stmt Function Accessor)

/-- How a function of the program is called. -/
abbrev Caller := Function → List Datum → Eval Datum

/-! ## Parts of rounds and operators -/

/-- The truth value that a value is. -/
def truth : Datum → Eval Bool
  | .bool b => pure b
  | _ => throw .fault

/-- Apply an operator to the values of both operands. -/
def operate (operator : Script.Operator) (a b : Datum) : Eval Datum :=
  match operator with
  | .equal => do return .bool (← require (a.equal? b))
  | .differ => do return .bool (← require (a.differ? b))
  | .greater => do return .bool (← require (a.greater? b))
  | .plus => require (a.plus? b)
  | .minus => require (a.minus? b)
  | .both => do return .bool ((← truth a) && (← truth b))
  | .either => do return .bool ((← truth a) || (← truth b))

/-- Repeat rounds as long as they ask for another one, at most a number of times. -/
def repeatRounds (round : Eval Bool) : Nat → Eval Datum
  | 0 => throw .exhausted
  | fuel + 1 => do
    tick
    if ← round then repeatRounds round fuel else return .unit

/-- A round for each item, as long as rounds ask for another one. -/
def forItems (round : Datum → Eval Bool) : List Datum → Eval Datum
  | [] => pure .unit
  | item :: items => do
    tick
    if ← round item then forItems round items else return .unit

/-- Repeat rounds until one asks for no more; every round takes a step. -/
def repeatUntilDone (round : Eval Bool) : Eval Datum := do
  repeatRounds round ((← get).budget + 1)

/-- A part of a variable that can be changed. -/
structure Location where
  /-- The variable. -/
  root : String
  /-- The way to the part. -/
  steps : List Datum.Step

namespace Location

/-- What the location holds. -/
def read (l : Location) : Eval Datum := do
  require ((← readVariable l.root).follow? l.steps)

/-- Change what the location holds. -/
def modify (l : Location) (f : Datum → Option Datum) : Eval Unit := do
  writeVariable l.root (← require (Datum.update? f l.steps (← readVariable l.root)))

/-- The location of a part of what is there. -/
def step (l : Location) (s : Datum.Step) : Location := ⟨l.root, l.steps ++ [s]⟩

end Location

/-! ## Expressions -/

mutual

/-- The value of an expression. -/
def evalExpr (env : Environment) (call : Caller) : Expr → Eval Datum
  | .unit => pure .unit
  | .bool b => pure (.bool b)
  | .int n => pure (.int n)
  | .float x => pure (.float x)
  | .str text => pure (.text text)
  | .var name => readVariable name
  | .constant space name => require (env.constant? space name)
  | .array _ items => do return .array (← evalItems env call items)
  | .object _ entries => do return .map (Keyed.ofList (← evalEntries env call entries))
  | .call function arguments => do
    let values ← evalItems env call arguments
    -- functions of the program come before those of the host
    match env.program.function? function values.length with
    | some f => call f values
    | none => env.callNative function values
  | .moduleCall space function arguments => do
    env.callModule space function (← evalItems env call arguments)
  | .method receiver function arguments => do
    let location? ← locate env call receiver
    let target ← match location? with
      | some l => l.read
      | none => evalExpr env call receiver
    let values ← evalItems env call arguments
    match env.program.function? function values.length with
    | some f => call f values
    | none =>
      -- an array grows in place, so it has to be a part of a variable
      match function, location?, values with
      | "push", some l, [d] =>
        l.modify fun
          | .array items => some (.array (items ++ [d]))
          | _ => none
        return .unit
      | _, _, _ => env.callNative function (target :: values)
  | .field target name => do require ((← evalExpr env call target).field? name)
  | .index target key => do
    let d ← evalExpr env call target
    require (d.item? (← evalExpr env call key))
  | .not operand => do return .bool (!(← truth (← evalExpr env call operand)))
  | .negate operand => do require (← evalExpr env call operand).negate?
  -- the right operand is looked at only where the left one leaves the value open
  | .binary .both left right => do
    if ← truth (← evalExpr env call left) then
      return .bool (← truth (← evalExpr env call right))
    else return .bool false
  | .binary .either left right => do
    if ← truth (← evalExpr env call left) then return .bool true
    else return .bool (← truth (← evalExpr env call right))
  | .binary operator left right => do
    let a ← evalExpr env call left
    operate operator a (← evalExpr env call right)
  | .paren inner => evalExpr env call inner

/-- The values of expressions, one after another. -/
def evalItems (env : Environment) (call : Caller) : List Expr → Eval (List Datum)
  | [] => pure []
  | item :: items => do
    let d ← evalExpr env call item
    return d :: (← evalItems env call items)

/-- The values of entries, one after another. -/
def evalEntries (env : Environment) (call : Caller) : List (String × Expr) → Eval Entries
  | [] => pure []
  | (name, e) :: entries => do
    let d ← evalExpr env call e
    return (name, d) :: (← evalEntries env call entries)

/-- The location that an expression stands for, if it is a part of a variable. -/
def locate (env : Environment) (call : Caller) : Expr → Eval (Option Location)
  | .var name => pure (some ⟨name, []⟩)
  | .field target name => do
    return (← locate env call target).map fun l => l.step (.field name)
  | .index target key => do
    match ← locate env call target with
    | none => return none
    | some l => return some (l.step (.key (← evalExpr env call key)))
  | _ => pure none

end

/-- The steps of the way to a part. -/
def evalPath (env : Environment) (call : Caller) : List Accessor → Eval (List Datum.Step)
  | [] => pure []
  | .field name :: path => do return .field name :: (← evalPath env call path)
  | .index key :: path => do
    let d ← evalExpr env call key
    return .key d :: (← evalPath env call path)

/-! ## Statements -/

/-- Change what a place holds. -/
def evalAssignment (env : Environment) (call : Caller) (place : Script.Place)
    (assignment : Script.Assignment) (e : Expr) : Eval Unit := do
  let d ← evalExpr env call e
  let location : Location := ⟨place.root, ← evalPath env call place.path⟩
  location.modify fun old =>
    match assignment with
    | .set => some d
    | .add => old.increase? d
    | .subtract => old.minus? d

mutual

/-- Run a statement; its value. -/
def evalStmt (env : Environment) (call : Caller) : Stmt → Eval Datum
  | .declare name none => do
    declare name .unit
    return .unit
  | .declare name (some e) => do
    declare name (← evalExpr env call e)
    return .unit
  | .assign place assignment e => do
    evalAssignment env call place assignment e
    return .unit
  | .branch branches otherwise =>
    evalBranches env call (inBlock (evalBlock env call .unit otherwise)) branches
  | .repeatWhile condition body =>
    repeatUntilDone do
      if ← truth (← evalExpr env call condition) then
        asRound (inBlock (evalBlock env call .unit body))
      else return false
  | .repeatForever body => repeatUntilDone (asRound (inBlock (evalBlock env call .unit body)))
  | .forEach name items body => do
    match ← evalExpr env call items with
    | .array items =>
      forItems (fun item => asRound (inBlock do
        declare name item
        evalBlock env call .unit body)) items
    | _ => throw .fault
  | .leaveLoop => throw .left
  | .nextRound => throw .nextRound
  | .leaveFunction none => throw (.returned .unit)
  | .leaveFunction (some e) => do throw (.returned (← evalExpr env call e))
  | .raise e => do throw (.thrown (← evalExpr env call e))
  | .attempt body name handler =>
    attempt (inBlock (evalBlock env call .unit body)) fun d => inBlock do
      match name with
      | some name => declare name d
      | none => pure ()
      evalBlock env call .unit handler
  | .useModule path _ => do
    let _ ← require (Environment.module? path)
    return .unit
  | .run e => evalExpr env call e
  | .value e => evalExpr env call e
  | .note _ => pure .unit
  | .gap => pure .unit

/-- Run the statements of a block; the value of the last one that is neither a remark nor an empty
line. -/
def evalBlock (env : Environment) (call : Caller) (value : Datum) : List Stmt → Eval Datum
  | [] => pure value
  | .note _ :: stmts => evalBlock env call value stmts
  | .gap :: stmts => evalBlock env call value stmts
  | stmt :: stmts => do
    tick
    evalBlock env call (← evalStmt env call stmt) stmts

/-- Run the block of the first condition that holds, or else something else. -/
def evalBranches (env : Environment) (call : Caller) (otherwise : Eval Datum) :
    List (Expr × List Stmt) → Eval Datum
  | [] => otherwise
  | (condition, body) :: branches => do
    if ← truth (← evalExpr env call condition) then inBlock (evalBlock env call .unit body)
    else evalBranches env call otherwise branches

end

/-! ## Functions -/

/-- Call a function of the program, with a bound on how deeply calls are nested. -/
def callFunction (env : Environment) : Nat → Caller
  | 0, _, _ => throw .exhausted
  | depth + 1, f, arguments =>
    withScope (f.parameters.zip arguments).reverse <|
      asFunction (evalBlock env (callFunction env depth) .unit f.body)

end Pipewright.Host
