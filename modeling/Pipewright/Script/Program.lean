/-! # Programs of the script language
The trees of expressions, statements, functions and programs. A tree can say how it is laid out
when it is written; the layout means nothing when it is run. -/

namespace Pipewright.Script

/-- How the items of an array or a map are laid out. -/
inductive Layout where
  /-- All on one line. -/
  | inline
  /-- Each on a line of its own. -/
  | spread
deriving DecidableEq, Repr

/-- An operator between two expressions. -/
inductive Operator where
  /-- Both operands are equal. -/
  | equal
  /-- The operands differ. -/
  | differ
  /-- The left operand is the greater one. -/
  | greater
  /-- The sum, or one text or array behind the other. -/
  | plus
  /-- The difference. -/
  | minus
  /-- Both hold; the right one is asked only if the left one holds. -/
  | both
  /-- At least one holds; the right one is asked only if the left one does not hold. -/
  | either
deriving DecidableEq, Repr

/-- An expression. -/
inductive Expr where
  /-- The value that stands for nothing. -/
  | unit
  /-- A truth value. -/
  | bool (b : Bool)
  /-- A whole number. -/
  | int (n : Int64)
  /-- A floating-point number. -/
  | float (x : Float)
  /-- A text. -/
  | str (text : String)
  /-- A variable. -/
  | var (name : String)
  /-- A constant of a module. -/
  | constant (space name : String)
  /-- An array. -/
  | array (layout : Layout) (items : List Expr)
  /-- A map. -/
  | object (layout : Layout) (entries : List (String × Expr))
  /-- A call of a function. -/
  | call (function : String) (arguments : List Expr)
  /-- A call of a function of a module. -/
  | moduleCall (space function : String) (arguments : List Expr)
  /-- A call of a function on a receiver. -/
  | method (receiver : Expr) (function : String) (arguments : List Expr)
  /-- A field by its name. -/
  | field (target : Expr) (name : String)
  /-- An item or entry by the value of an expression. -/
  | index (target key : Expr)
  /-- The opposite truth value. -/
  | not (operand : Expr)
  /-- The number of opposite sign. -/
  | negate (operand : Expr)
  /-- An operator between two expressions. -/
  | binary (operator : Operator) (left right : Expr)
  /-- An expression in parentheses. -/
  | paren (inner : Expr)

/-- One step from a container to a part of it. -/
inductive Accessor where
  /-- A field by its name. -/
  | field (name : String)
  /-- An item or entry by the value of an expression. -/
  | index (key : Expr)

/-- What an assignment can change: a variable, or a part of what it holds. -/
structure Place where
  /-- The variable. -/
  root : String
  /-- The way to the part, from the outside in. -/
  path : List Accessor

/-- What an assignment does with the new value. -/
inductive Assignment where
  /-- It takes the old one's place. -/
  | set
  /-- It is added to the old one. -/
  | add
  /-- It is subtracted from the old one. -/
  | subtract
deriving DecidableEq, Repr

/-- A statement. The value of a block is the value of its last statement, which is that of the
expression if it is one, whether a semicolon follows or not. -/
inductive Stmt where
  /-- Declare a variable; without a value it holds nothing. -/
  | declare (name : String) (value : Option Expr)
  /-- Change what a place holds. -/
  | assign (place : Place) (assignment : Assignment) (value : Expr)
  /-- Run the block of the first condition that holds, or else the last block. -/
  | branch (branches : List (Expr × List Stmt)) (otherwise : List Stmt)
  /-- Run a block as long as a condition holds. -/
  | repeatWhile (condition : Expr) (body : List Stmt)
  /-- Run a block without end. -/
  | repeatForever (body : List Stmt)
  /-- Run a block for every item of an array. -/
  | forEach (name : String) (items : Expr) (body : List Stmt)
  /-- Leave the innermost loop. -/
  | leaveLoop
  /-- Go on with the innermost loop's next round. -/
  | nextRound
  /-- Leave the function. -/
  | leaveFunction (value : Option Expr)
  /-- Raise a value. -/
  | raise (value : Expr)
  /-- Run a block, and another one if the first one fails. -/
  | attempt (body : List Stmt) (name : Option String) (handler : List Stmt)
  /-- Make a module known under a name. -/
  | useModule (path name : String)
  /-- Evaluate an expression, behind which a semicolon is written. -/
  | run (e : Expr)
  /-- Evaluate an expression, behind which nothing is written; only the last statement of a block
  can be of this form. -/
  | value (e : Expr)
  /-- A remark. -/
  | note (text : String)
  /-- An empty line. -/
  | gap

mutual

/-- Whether a statement leaves a loop or goes on with its next round only inside of one; the flag
says whether the statement itself stands in a loop. -/
def Stmt.keepsToLoops (looping : Bool) : Stmt → Bool
  | .leaveLoop => looping
  | .nextRound => looping
  | .branch branches otherwise =>
    Stmt.branchesKeepToLoops looping branches && Stmt.blockKeepsToLoops looping otherwise
  | .repeatWhile _ body => Stmt.blockKeepsToLoops true body
  | .repeatForever body => Stmt.blockKeepsToLoops true body
  | .forEach _ _ body => Stmt.blockKeepsToLoops true body
  | .attempt body _ handler =>
    Stmt.blockKeepsToLoops looping body && Stmt.blockKeepsToLoops looping handler
  | _ => true

/-- Whether all statements of a block keep to loops. -/
def Stmt.blockKeepsToLoops (looping : Bool) : List Stmt → Bool
  | [] => true
  | stmt :: stmts => Stmt.keepsToLoops looping stmt && Stmt.blockKeepsToLoops looping stmts

/-- Whether the blocks of all conditions keep to loops. -/
def Stmt.branchesKeepToLoops (looping : Bool) : List (Expr × List Stmt) → Bool
  | [] => true
  | (_, body) :: branches =>
    Stmt.blockKeepsToLoops looping body && Stmt.branchesKeepToLoops looping branches

end

/-- A function. -/
structure Function where
  /-- The name it is called by. -/
  name : String
  /-- The names of its parameters. -/
  parameters : List String
  /-- What it does. -/
  body : List Stmt

/-- The number of arguments a function takes. -/
def Function.arity (f : Function) : Nat := f.parameters.length

/-- A program: functions, which may be called from everywhere, and statements. -/
structure Program where
  /-- The functions, in the order in which they are written. -/
  functions : List Function
  /-- The statements outside all functions. -/
  body : List Stmt

namespace Program

/-- The program without functions and statements. -/
def empty : Program := ⟨[], []⟩

/-- Whether loops are left and gone on with only inside of them. -/
def keepsToLoops (p : Program) : Bool :=
  Stmt.blockKeepsToLoops false p.body &&
    p.functions.all fun f => Stmt.blockKeepsToLoops false f.body

/-- The function of a name that takes a number of arguments. -/
def function? (p : Program) (name : String) (arity : Nat) : Option Function :=
  p.functions.find? fun f => f.name == name && f.arity == arity

/-- Whether there is a function of a name that takes a number of arguments. -/
def hasFunction (p : Program) (name : String) (arity : Nat) : Bool :=
  (p.function? name arity).isSome

/-- The numbers of arguments that the functions of a name take, ascending and each once. -/
def arities (p : Program) (name : String) : List Nat :=
  (((p.functions.filter fun f => f.name == name).map Function.arity).mergeSort
    fun a b => decide (a ≤ b)).eraseDups

end Program

end Pipewright.Script
