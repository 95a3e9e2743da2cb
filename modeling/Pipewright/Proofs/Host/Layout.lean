import Pipewright.Proofs.Host.Statements

/-! # Running programs without their layout
The layout of a program means nothing when it is run, and neither do remarks and empty lines. -/

namespace Pipewright.Host

open Script (Expr Stmt Function Accessor)

variable {env : Environment} {call : Caller}

mutual

/-- An expression laid out flat has the same value. -/
theorem evalExpr_flat : (e : Expr) → evalExpr env call e.flat = evalExpr env call e
  | .array _ items => by
    unfold Expr.flat evalExpr
    rw [evalItems_flat items]
  | .object _ entries => by
    unfold Expr.flat evalExpr
    rw [evalEntries_flat entries]
  | .call function arguments => by
    unfold Expr.flat evalExpr
    rw [evalItems_flat arguments]
  | .moduleCall space function arguments => by
    unfold Expr.flat evalExpr
    rw [evalItems_flat arguments]
  | .method receiver function arguments => by
    unfold Expr.flat evalExpr
    rw [locate_flat receiver, evalExpr_flat receiver, evalItems_flat arguments]
  | .field target name => by
    unfold Expr.flat evalExpr
    rw [evalExpr_flat target]
  | .index target key => by
    unfold Expr.flat evalExpr
    rw [evalExpr_flat target, evalExpr_flat key]
  | .not operand => by
    unfold Expr.flat evalExpr
    rw [evalExpr_flat operand]
  | .negate operand => by
    unfold Expr.flat evalExpr
    rw [evalExpr_flat operand]
  | .binary operator left right => by
    have first := evalExpr_flat left
    have second := evalExpr_flat right
    -- each operator has its own equation, since two of them may leave out their right operand
    cases operator <;> unfold Expr.flat evalExpr <;> rw [first, second]
  | .paren inner => evalExpr_flat inner
  | .unit => rfl
  | .bool _ => rfl
  | .int _ => rfl
  | .float _ => rfl
  | .str _ => rfl
  | .var _ => rfl
  | .constant _ _ => rfl

/-- Expressions laid out flat have the same values. -/
theorem evalItems_flat :
    (items : List Expr) → evalItems env call (Expr.flatItems items) = evalItems env call items
  | [] => rfl
  | item :: items => by
    unfold Expr.flatItems evalItems
    rw [evalExpr_flat item, evalItems_flat items]

/-- Entries laid out flat have the same values. -/
theorem evalEntries_flat : (entries : List (String × Expr)) →
    evalEntries env call (Expr.flatEntries entries) = evalEntries env call entries
  | [] => rfl
  | (key, e) :: entries => by
    unfold Expr.flatEntries evalEntries
    rw [evalExpr_flat e, evalEntries_flat entries]

/-- An expression laid out flat stands for the same location. -/
theorem locate_flat : (e : Expr) → locate env call e.flat = locate env call e
  | .field target name => by
    unfold Expr.flat locate
    rw [locate_flat target]
  | .index target key => by
    unfold Expr.flat locate
    rw [locate_flat target, evalExpr_flat key]
  | .array _ _ => rfl
  | .object _ _ => rfl
  | .call _ _ => rfl
  | .moduleCall _ _ _ => rfl
  | .method _ _ _ => rfl
  | .not _ => rfl
  | .negate _ => rfl
  | .binary _ _ _ => rfl
  | .paren _ => rfl
  | .unit => rfl
  | .bool _ => rfl
  | .int _ => rfl
  | .float _ => rfl
  | .str _ => rfl
  | .var _ => rfl
  | .constant _ _ => rfl

end

/-- A path laid out flat leads to the same part. -/
theorem evalPath_flat (path : List Accessor) :
    evalPath env call (path.map Accessor.flat) = evalPath env call path := by
  induction path with
  | nil => rfl
  | cons a path ih =>
    cases a with
    | field name =>
      show evalPath env call (.field name :: path.map Accessor.flat) = _
      unfold evalPath
      rw [ih]
    | index key =>
      show evalPath env call (.index key.flat :: path.map Accessor.flat) = _
      unfold evalPath
      rw [ih, evalExpr_flat key]

mutual

/-- A statement without its layout does the same. -/
theorem evalStmt_flat : (stmt : Stmt) → evalStmt env call stmt.flat = evalStmt env call stmt
  | .declare name none => rfl
  | .declare name (some e) => by
    unfold Stmt.flat evalStmt
    rw [evalExpr_flat e]
  | .assign place assignment e => by
    unfold Stmt.flat evalStmt evalAssignment Script.Place.flat
    rw [evalExpr_flat e, evalPath_flat]
  | .branch branches otherwise => by
    unfold Stmt.flat evalStmt
    rw [evalBlock_flat otherwise, evalBranches_flat branches]
  -- a loop runs its block as often as before, since condition and block do the same
  | .repeatWhile condition body => by
    unfold Stmt.flat evalStmt
    rw [evalExpr_flat condition, evalBlock_flat body]
  | .repeatForever body => by
    unfold Stmt.flat evalStmt
    rw [evalBlock_flat body]
  | .forEach name items body => by
    unfold Stmt.flat evalStmt
    rw [evalExpr_flat items, evalBlock_flat body]
  | .leaveLoop => rfl
  | .nextRound => rfl
  | .leaveFunction none => rfl
  | .leaveFunction (some e) => by
    unfold Stmt.flat evalStmt
    rw [evalExpr_flat e]
  | .raise e => by
    unfold Stmt.flat evalStmt
    rw [evalExpr_flat e]
  | .attempt body name handler => by
    unfold Stmt.flat evalStmt
    rw [evalBlock_flat body, evalBlock_flat handler]
  | .useModule _ _ => rfl
  | .run e => evalExpr_flat e
  | .value e => evalExpr_flat e
  | .note _ => rfl
  | .gap => rfl

/-- A block without its layout does the same. -/
theorem evalBlock_flat : (stmts : List Stmt) → ∀ {v : Datum},
    evalBlock env call v (Stmt.flatBlock stmts) = evalBlock env call v stmts
  | [], _ => rfl
  | stmt :: stmts, v => by
    cases silent : stmt.isSilent with
    | true => rw [Stmt.flatBlock_of_isSilent silent, evalBlock_remark silent, evalBlock_flat stmts]
    | false =>
      have silent' : stmt.flat.isSilent = false := by rw [stmt.isSilent_flat, silent]
      rw [Stmt.flatBlock_of_not_isSilent silent, evalBlock_cons silent', evalBlock_cons silent,
        evalStmt_flat stmt]
      simp only [evalBlock_flat stmts]

/-- Conditions and their blocks without their layout do the same. -/
theorem evalBranches_flat : (branches : List (Expr × List Stmt)) → ∀ {otherwise : Eval Datum},
    evalBranches env call otherwise (Stmt.flatBranches branches) =
      evalBranches env call otherwise branches
  | [], _ => rfl
  | (condition, body) :: branches, otherwise => by
    unfold Stmt.flatBranches evalBranches
    rw [evalExpr_flat condition, evalBlock_flat body, evalBranches_flat branches]

end

/-- A program that has a function without its layout provides it. -/
theorem Environment.Provides.of_flat {f : Function}
    (h : env.program.function? f.name f.arity = some f.flat) : env.Provides f :=
  ⟨f.flat, h, rfl, fun _ _ => evalBlock_flat f.body⟩

end Pipewright.Host
