import Pipewright.Script.Program

/-! # Variables of programs
Which variables an expression reads and a statement declares, and what it means for statements one
after another to read a variable only when it has been given a value. -/

namespace Pipewright.Script

/-! ## Expressions -/

mutual

/-- The variables that an expression reads. -/
def Expr.variables : Expr → List String
  | .var name => [name]
  | .array _ items => Expr.variablesOfItems items
  | .object _ entries => Expr.variablesOfEntries entries
  | .call _ arguments => Expr.variablesOfItems arguments
  | .moduleCall _ _ arguments => Expr.variablesOfItems arguments
  | .method receiver _ arguments => Expr.variables receiver ++ Expr.variablesOfItems arguments
  | .field target _ => Expr.variables target
  | .index target key => Expr.variables target ++ Expr.variables key
  | .not operand => Expr.variables operand
  | .negate operand => Expr.variables operand
  | .binary _ left right => Expr.variables left ++ Expr.variables right
  | .paren inner => Expr.variables inner
  | _ => []

/-- The variables that a list of expressions reads. -/
def Expr.variablesOfItems : List Expr → List String
  | [] => []
  | item :: items => Expr.variables item ++ Expr.variablesOfItems items

/-- The variables that the expressions of a list of entries read. -/
def Expr.variablesOfEntries : List (String × Expr) → List String
  | [] => []
  | (_, e) :: entries => Expr.variables e ++ Expr.variablesOfEntries entries

end

/-- A list of expressions reads what one of them reads. -/
theorem Expr.mem_variablesOfItems_iff {x : String} {items : List Expr} :
    x ∈ Expr.variablesOfItems items ↔ ∃ item ∈ items, x ∈ item.variables := by
  induction items with
  | nil => simp [Expr.variablesOfItems]
  | cons item items ih => simp [Expr.variablesOfItems, ih]

/-- The entries of a map read what one of them reads. -/
theorem Expr.mem_variablesOfEntries_iff {x : String} {entries : List (String × Expr)} :
    x ∈ Expr.variablesOfEntries entries ↔ ∃ entry ∈ entries, x ∈ entry.2.variables := by
  induction entries with
  | nil => simp [Expr.variablesOfEntries]
  | cons entry entries ih => simp [Expr.variablesOfEntries, ih]

/-! ## Declarations -/

mutual

/-- The variables that a statement declares, in whichever of its blocks. -/
def Stmt.declared : Stmt → List String
  | .declare name _ => [name]
  | .branch branches otherwise =>
    Stmt.declaredOfBranches branches ++ Stmt.declaredOfBlock otherwise
  | .repeatWhile _ body => Stmt.declaredOfBlock body
  | .repeatForever body => Stmt.declaredOfBlock body
  | .forEach _ _ body => Stmt.declaredOfBlock body
  | .attempt body _ handler => Stmt.declaredOfBlock body ++ Stmt.declaredOfBlock handler
  | _ => []

/-- The variables that the statements of a block declare. -/
def Stmt.declaredOfBlock : List Stmt → List String
  | [] => []
  | stmt :: stmts => Stmt.declared stmt ++ Stmt.declaredOfBlock stmts

/-- The variables that the blocks of branches declare. -/
def Stmt.declaredOfBranches : List (Expr × List Stmt) → List String
  | [] => []
  | (_, block) :: branches => Stmt.declaredOfBlock block ++ Stmt.declaredOfBranches branches

end

/-- A block declares what its statements declare, one after another. -/
theorem Stmt.declaredOfBlock_eq_flatMap (stmts : List Stmt) :
    Stmt.declaredOfBlock stmts = stmts.flatMap Stmt.declared := by
  induction stmts with
  | nil => rfl
  | cons stmt stmts ih => rw [Stmt.declaredOfBlock, ih, List.flatMap_cons]

/-- The variables that a function declares. -/
def Function.declared (f : Function) : List String := Stmt.declaredOfBlock f.body

/-! ## Statements one after another -/

/-- Statements read only variables that have a value: some have one at first, and others get one
when they are declared with it or assigned it. The last list is of those that have one at the
end. -/
inductive Supplied : List String → List Stmt → List String → Prop where
  /-- There are no more statements. -/
  | done {given : List String} : Supplied given [] given
  /-- A remark reads nothing. -/
  | note {given after : List String} {text : String} {rest : List Stmt}
    (others : Supplied given rest after) : Supplied given (.note text :: rest) after
  /-- An empty line reads nothing. -/
  | gap {given after : List String} {rest : List Stmt} (others : Supplied given rest after) :
    Supplied given (.gap :: rest) after
  /-- An expression is evaluated. -/
  | run {given after : List String} {e : Expr} {rest : List Stmt}
    (reads : ∀ x ∈ e.variables, x ∈ given) (others : Supplied given rest after) :
    Supplied given (.run e :: rest) after
  /-- A variable is declared with a value. -/
  | declare {given after : List String} {name : String} {e : Expr} {rest : List Stmt}
    (reads : ∀ x ∈ e.variables, x ∈ given) (others : Supplied (name :: given) rest after) :
    Supplied given (.declare name (some e) :: rest) after
  /-- A variable is assigned a value. -/
  | assign {given after : List String} {name : String} {e : Expr} {rest : List Stmt}
    (reads : ∀ x ∈ e.variables, x ∈ given) (others : Supplied (name :: given) rest after) :
    Supplied given (.assign ⟨name, []⟩ .set e :: rest) after

namespace Supplied

variable {given given' after after' : List String} {stmts stmts' : List Stmt}

/-- Statements behind others. -/
theorem append (h : Supplied given stmts after) (h' : Supplied after stmts' after') :
    Supplied given (stmts ++ stmts') after' := by
  induction h with
  | done => exact h'
  | note _ ih => exact .note (ih h')
  | gap _ ih => exact .gap (ih h')
  | run reads _ ih => exact .run reads (ih h')
  | declare reads _ ih => exact .declare reads (ih h')
  | assign reads _ ih => exact .assign reads (ih h')

/-- No variable loses its value. -/
theorem keeps (h : Supplied given stmts after) {x : String} (m : x ∈ given) : x ∈ after := by
  induction h with
  | done => exact m
  | note _ ih => exact ih m
  | gap _ ih => exact ih m
  | run _ _ ih => exact ih m
  | declare _ _ ih => exact ih (List.mem_cons_of_mem _ m)
  | assign _ _ ih => exact ih (List.mem_cons_of_mem _ m)

end Supplied

end Pipewright.Script
