import Pipewright.Script.Printer

/-! # Programs without their layout
What is read from the text of a program is laid out on one line and has neither remarks nor empty
lines. -/

namespace Pipewright.Script

/-- Whether a statement is a remark or an empty line. -/
def Stmt.isSilent : Stmt → Bool
  | .note _ => true
  | .gap => true
  | _ => false

mutual

/-- An expression laid out on one line. -/
def Expr.flat : Expr → Expr
  | .array _ items => .array .inline (Expr.flatItems items)
  | .object _ entries => .object .inline (Expr.flatEntries entries)
  | .call function arguments => .call function (Expr.flatItems arguments)
  | .moduleCall space function arguments => .moduleCall space function (Expr.flatItems arguments)
  | .method receiver function arguments =>
    .method (Expr.flat receiver) function (Expr.flatItems arguments)
  | .field target name => .field (Expr.flat target) name
  | .index target key => .index (Expr.flat target) (Expr.flat key)
  | .not operand => .not (Expr.flat operand)
  | .negate operand => .negate (Expr.flat operand)
  | .binary operator left right => .binary operator (Expr.flat left) (Expr.flat right)
  | .paren inner => .paren (Expr.flat inner)
  | e => e

/-- Expressions laid out on one line. -/
def Expr.flatItems : List Expr → List Expr
  | [] => []
  | item :: items => Expr.flat item :: Expr.flatItems items

/-- Entries laid out on one line. -/
def Expr.flatEntries : List (String × Expr) → List (String × Expr)
  | [] => []
  | (key, e) :: entries => (key, Expr.flat e) :: Expr.flatEntries entries

end

/-- A step from a container to a part of it, laid out on one line. -/
def Accessor.flat : Accessor → Accessor
  | .field name => .field name
  | .index key => .index key.flat

/-- A place laid out on one line. -/
def Place.flat (p : Place) : Place := ⟨p.root, p.path.map Accessor.flat⟩

mutual

/-- A statement without its layout. -/
def Stmt.flat : Stmt → Stmt
  | .declare name (some e) => .declare name (some e.flat)
  | .assign place assignment e => .assign place.flat assignment e.flat
  | .branch branches otherwise => .branch (Stmt.flatBranches branches) (Stmt.flatBlock otherwise)
  | .repeatWhile condition body => .repeatWhile condition.flat (Stmt.flatBlock body)
  | .repeatForever body => .repeatForever (Stmt.flatBlock body)
  | .forEach name items body => .forEach name items.flat (Stmt.flatBlock body)
  | .leaveFunction (some e) => .leaveFunction (some e.flat)
  | .raise e => .raise e.flat
  | .attempt body name handler => .attempt (Stmt.flatBlock body) name (Stmt.flatBlock handler)
  | .run e => .run e.flat
  | .value e => .value e.flat
  | stmt => stmt

/-- The statements of a block without remarks, empty lines and layout. -/
def Stmt.flatBlock : List Stmt → List Stmt
  | [] => []
  | stmt :: stmts =>
    if stmt.isSilent then Stmt.flatBlock stmts else Stmt.flat stmt :: Stmt.flatBlock stmts

/-- Conditions and their blocks without their layout. -/
def Stmt.flatBranches : List (Expr × List Stmt) → List (Expr × List Stmt)
  | [] => []
  | (condition, body) :: branches =>
    (condition.flat, Stmt.flatBlock body) :: Stmt.flatBranches branches

end

/-- A function without its layout. -/
def Function.flat (f : Function) : Function := ⟨f.name, f.parameters, Stmt.flatBlock f.body⟩

/-! ## Small facts -/

variable {stmt : Stmt} {stmts : List Stmt}

/-- Remarks and empty lines are dropped. -/
theorem Stmt.flatBlock_of_isSilent (h : stmt.isSilent = true) :
    Stmt.flatBlock (stmt :: stmts) = Stmt.flatBlock stmts := by
  unfold Stmt.flatBlock
  rw [if_pos h]
  cases stmts <;> rfl

/-- Every other statement stays. -/
theorem Stmt.flatBlock_of_not_isSilent (h : stmt.isSilent = false) :
    Stmt.flatBlock (stmt :: stmts) = stmt.flat :: Stmt.flatBlock stmts := by
  have other : ¬ stmt.isSilent = true := by simp [h]
  show (if stmt.isSilent then Stmt.flatBlock stmts else stmt.flat :: Stmt.flatBlock stmts) = _
  rw [if_neg other]

/-- No statement becomes a remark or an empty line. -/
theorem Stmt.isSilent_flat (stmt : Stmt) : stmt.flat.isSilent = stmt.isSilent := by
  cases stmt with
  | declare name value => cases value <;> rfl
  | leaveFunction value => cases value <;> rfl
  | _ => rfl

/-- The name and the number of parameters stay. -/
@[simp] theorem Function.name_flat (f : Function) : f.flat.name = f.name := rfl

@[simp] theorem Function.arity_flat (f : Function) : f.flat.arity = f.arity := rfl

end Pipewright.Script
