import Pipewright.Proofs.Host.Outcome
import Pipewright.Proofs.Script.Layout

/-! # What expressions and statements come to
One rule for each form of expression and statement, from what its parts come to. -/

namespace Pipewright

namespace Host

open Script (Expr Stmt Function)

variable {env : Environment} {call : Caller} {s s' s'' : Entries} {w w' w'' : World}

/-! ## Blocks -/

/-- Remarks and empty lines are passed over. -/
theorem evalBlock_remark {stmt : Stmt} (h : stmt.isSilent = true) (v : Datum)
    (stmts : List Stmt) :
    evalBlock env call v (stmt :: stmts) = evalBlock env call v stmts := by
  cases stmt with
  | note text => rw [evalBlock]
  | gap => rw [evalBlock]
  | _ => simp [Stmt.isSilent] at h

/-- Any other statement takes a step, and its value is that of the block so far. -/
theorem evalBlock_cons {stmt : Stmt} (h : stmt.isSilent = false) (v : Datum)
    (stmts : List Stmt) :
    evalBlock env call v (stmt :: stmts) =
      tick >>= fun _ => evalStmt env call stmt >>= fun d => evalBlock env call d stmts := by
  cases stmt with
  | note text => simp [Stmt.isSilent] at h
  | gap => simp [Stmt.isSilent] at h
  | _ => rw [evalBlock] <;> simp

/-- One block behind another goes on from its value. -/
theorem evalBlock_append (before after : List Stmt) (v : Datum) :
    evalBlock env call v (before ++ after) =
      evalBlock env call v before >>= fun d => evalBlock env call d after := by
  induction before generalizing v with
  | nil =>
    rw [evalBlock, pure_bind]
    rfl
  | cons stmt stmts ih =>
    rw [List.cons_append]
    cases h : stmt.isSilent with
    | true => rw [evalBlock_remark h, evalBlock_remark h, ih]
    | false => simp only [evalBlock_cons h, ih, bind_assoc]

namespace Yields

/-- An empty block has the value so far. -/
theorem block_nil (v : Datum) : Yields (evalBlock env call v []) s w (.ok v) s w := by
  exact .pure v

/-- A block goes on behind a statement with a value. -/
theorem block_cons {stmt : Stmt} {stmts : List Stmt} {v d : Datum} {r : Except Halt Datum}
    (plain : stmt.isSilent = false) (h : Yields (evalStmt env call stmt) s w (.ok d) s' w')
    (h' : Yields (evalBlock env call d stmts) s' w' r s'' w'') :
    Yields (evalBlock env call v (stmt :: stmts)) s w r s'' w'' := by
  rw [evalBlock_cons plain]
  exact tick.bind (h.bind h')

/-- A block ends with a statement that halts. -/
theorem block_halt {stmt : Stmt} {stmts : List Stmt} {v : Datum} {halt : Halt}
    (plain : stmt.isSilent = false) (h : Yields (evalStmt env call stmt) s w (.error halt) s' w') :
    Yields (evalBlock env call v (stmt :: stmts)) s w (.error halt) s' w' := by
  rw [evalBlock_cons plain]
  exact tick.bind h.bind_error

/-- A block of one statement comes to what the statement comes to. -/
theorem block_single {stmt : Stmt} {v : Datum} {r : Except Halt Datum}
    (plain : stmt.isSilent = false) (h : Yields (evalStmt env call stmt) s w r s' w') :
    Yields (evalBlock env call v [stmt]) s w r s' w' := by
  cases r with
  | ok d => exact block_cons plain h (block_nil d)
  | error halt => exact block_halt plain h

/-- A block goes on behind a remark. -/
theorem block_remark {stmt : Stmt} {stmts : List Stmt} {v : Datum} {r : Except Halt Datum}
    (remark : stmt.isSilent = true) (h : Yields (evalBlock env call v stmts) s w r s' w') :
    Yields (evalBlock env call v (stmt :: stmts)) s w r s' w' := by
  rw [evalBlock_remark remark]
  exact h

/-- One block goes on behind another. -/
theorem block_append {before after : List Stmt} {v d : Datum} {r : Except Halt Datum}
    (h : Yields (evalBlock env call v before) s w (.ok d) s' w')
    (h' : Yields (evalBlock env call d after) s' w' r s'' w'') :
    Yields (evalBlock env call v (before ++ after)) s w r s'' w'' := by
  rw [evalBlock_append]
  exact h.bind h'

/-- What follows a block that halts is not run. -/
theorem block_append_halt {before after : List Stmt} {v : Datum} {halt : Halt}
    (h : Yields (evalBlock env call v before) s w (.error halt) s' w') :
    Yields (evalBlock env call v (before ++ after)) s w (.error halt) s' w' := by
  rw [evalBlock_append]
  exact h.bind_error

/-! ## Expressions -/

/-- No expressions have no values. -/
theorem items_nil : Yields (evalItems env call []) s w (.ok []) s w := by
  exact .pure []

/-- The values of expressions, the first one's first. -/
theorem items_cons {e : Expr} {es : List Expr} {d : Datum} {ds : List Datum}
    (h : Yields (evalExpr env call e) s w (.ok d) s' w')
    (h' : Yields (evalItems env call es) s' w' (.ok ds) s'' w'') :
    Yields (evalItems env call (e :: es)) s w (.ok (d :: ds)) s'' w'' := by
  exact h.bind (h'.map _)

/-- Where an expression halts, the ones behind it are not evaluated. -/
theorem items_halt {e : Expr} {es : List Expr} {halt : Halt}
    (h : Yields (evalExpr env call e) s w (.error halt) s' w') :
    Yields (evalItems env call (e :: es)) s w (.error halt) s' w' := by
  exact h.bind_error

/-- A variable has its value. -/
theorem var {name : String} {d : Datum} (h : Keyed.lookup name s = some d) :
    Yields (evalExpr env call (.var name)) s w (.ok d) s w := by
  exact .readVariable h

/-- A text is its value. -/
theorem str (text : String) : Yields (evalExpr env call (.str text)) s w (.ok (.text text)) s w := by
  exact .pure _

/-- A whole number is its value. -/
theorem int (n : Int64) : Yields (evalExpr env call (.int n)) s w (.ok (.int n)) s w := by
  exact .pure _

/-- A floating-point number is its value. -/
theorem float (x : Float) : Yields (evalExpr env call (.float x)) s w (.ok (.float x)) s w := by
  exact .pure _

/-- A truth value is its value. -/
theorem bool (b : Bool) : Yields (evalExpr env call (.bool b)) s w (.ok (.bool b)) s w := by
  exact .pure _

/-- Nothing is its value. -/
theorem unit : Yields (evalExpr env call .unit) s w (.ok .unit) s w := by
  exact .pure _

/-- An array holds the values of its items. -/
theorem array {items : List Expr} {ds : List Datum}
    (h : Yields (evalItems env call items) s w (.ok ds) s' w') :
    Yields (evalExpr env call (.items items)) s w (.ok (.array ds)) s' w' := by
  exact h.map _

/-- A call of a function of the program. -/
theorem call_function {name : String} {arguments : List Expr} {values : List Datum} {f : Function}
    {r : Except Halt Datum} (h : Yields (evalItems env call arguments) s w (.ok values) s' w')
    (found : env.program.function? name values.length = some f)
    (h' : Yields (call f values) s' w' r s'' w'') :
    Yields (evalExpr env call (.call name arguments)) s w r s'' w'' := by
  refine h.bind ?_
  rw [found]
  exact h'

/-- A call of a function of the host. -/
theorem call_native {name : String} {arguments : List Expr} {values : List Datum}
    {r : Except Halt Datum} (h : Yields (evalItems env call arguments) s w (.ok values) s' w')
    (absent : env.program.function? name values.length = none)
    (h' : Yields (env.callNative name values) s' w' r s'' w'') :
    Yields (evalExpr env call (.call name arguments)) s w r s'' w'' := by
  refine h.bind ?_
  rw [absent]
  exact h'

/-- A call of a function of a module. -/
theorem moduleCall {m : HostModule} {function : String} {arguments : List Expr}
    {values : List Datum} {r : Except Halt Datum}
    (h : Yields (evalItems env call arguments) s w (.ok values) s' w')
    (h' : Yields (env.callModule m.name function values) s' w' r s'' w'') :
    Yields (evalExpr env call (m.call function arguments)) s w r s'' w'' := by
  exact h.bind h'

/-- A call of a function of the host on a variable. -/
theorem method_native {name function : String} {arguments : List Expr} {target : Datum}
    {values : List Datum} {r : Except Halt Datum} (there : Keyed.lookup name s = some target)
    (h : Yields (evalItems env call arguments) s w (.ok values) s' w')
    (absent : env.program.function? function values.length = none) (other : function ≠ "push")
    (h' : Yields (env.callNative function (target :: values)) s' w' r s'' w'') :
    Yields (evalExpr env call (.method (.var name) function arguments)) s w r s'' w'' := by
  have read : Yields (Location.read ⟨name, []⟩) s w (.ok target) s w :=
    (readVariable there).bind (require rfl)
  refine (pure (some (Location.mk name []))).bind (read.bind (h.bind ?_))
  rw [absent]
  simp only
  split
  · next e _ _ => exact absurd rfl other
  · exact h'

/-- What a variable holds is changed in place. -/
theorem modify_variable {name : String} {f : Datum → Option Datum} {d d' : Datum}
    (there : Keyed.lookup name s = some d) (changed : f d = some d') :
    Yields (Location.modify ⟨name, []⟩ f) s w (.ok ()) (Keyed.modify name (fun _ => d') s) w := by
  have contained : Keyed.contains name s = true := by
    rw [Keyed.contains, there]
    rfl
  exact (readVariable there).bind ((require changed).bind (writeVariable _ contained))

/-- A value is put behind the items of a variable's array. -/
theorem push {name : String} {e : Expr} {items : List Datum} {d : Datum}
    (there : Keyed.lookup name s = some (.array items))
    (h : Yields (evalExpr env call e) s w (.ok d) s w)
    (absent : env.program.function? "push" 1 = none) :
    Yields (evalExpr env call (.method (.var name) "push" [e])) s w (.ok .unit)
      (Keyed.modify name (fun _ => .array (items ++ [d])) s) w := by
  have read : Yields (Location.read ⟨name, []⟩) s w (.ok (.array items)) s w :=
    (readVariable there).bind (require rfl)
  refine (pure (some (Location.mk name []))).bind (read.bind ((items_cons h items_nil).bind ?_))
  rw [List.length_singleton, absent]
  refine Yields.bind (a := ()) ?_ (.pure _)
  exact modify_variable there rfl

/-- A field of a value. -/
theorem field {target : Expr} {name : String} {d part : Datum}
    (h : Yields (evalExpr env call target) s w (.ok d) s' w') (there : d.field? name = some part) :
    Yields (evalExpr env call (.field target name)) s w (.ok part) s' w' := by
  exact h.bind (.require there)

/-- An item or entry of a value. -/
theorem index {target key : Expr} {d k part : Datum}
    (h : Yields (evalExpr env call target) s w (.ok d) s' w')
    (h' : Yields (evalExpr env call key) s' w' (.ok k) s'' w'') (there : d.item? k = some part) :
    Yields (evalExpr env call (.index target key)) s w (.ok part) s'' w'' := by
  exact h.bind (h'.bind (.require there))

/-- The opposite truth value. -/
theorem not {e : Expr} {b : Bool} (h : Yields (evalExpr env call e) s w (.ok (.bool b)) s' w') :
    Yields (evalExpr env call (.not e)) s w (.ok (.bool !b)) s' w' := by
  exact h.bind ((pure b).map _)

/-- A comparison for equality. -/
theorem equal {left right : Expr} {a b : Datum} {same : Bool}
    (h : Yields (evalExpr env call left) s w (.ok a) s' w')
    (h' : Yields (evalExpr env call right) s' w' (.ok b) s'' w'')
    (compared : a.equal? b = some same) :
    Yields (evalExpr env call (.binary .equal left right)) s w (.ok (.bool same)) s'' w'' := by
  exact h.bind (h'.bind ((require compared).map _))

/-- A comparison for difference. -/
theorem differ {left right : Expr} {a b : Datum} {apart : Bool}
    (h : Yields (evalExpr env call left) s w (.ok a) s' w')
    (h' : Yields (evalExpr env call right) s' w' (.ok b) s'' w'')
    (compared : a.differ? b = some apart) :
    Yields (evalExpr env call (.binary .differ left right)) s w (.ok (.bool apart)) s'' w'' := by
  exact h.bind (h'.bind ((require compared).map _))

/-- One of two conditions holds, the second of which is looked at if the first one does not hold. -/
theorem either {left right : Expr} {a b : Bool}
    (h : Yields (evalExpr env call left) s w (.ok (.bool a)) s w)
    (h' : a = false → Yields (evalExpr env call right) s w (.ok (.bool b)) s w) :
    Yields (evalExpr env call (.binary .either left right)) s w (.ok (.bool (a || b))) s w := by
  refine h.bind ?_
  cases a with
  | true => exact (pure true).bind (.pure _)
  | false => exact (pure false).bind ((h' rfl).bind ((pure b).map _))

/-- Both of two conditions hold, the second of which is looked at if the first one does. -/
theorem both {left right : Expr} {a b : Bool}
    (h : Yields (evalExpr env call left) s w (.ok (.bool a)) s w)
    (h' : a = true → Yields (evalExpr env call right) s w (.ok (.bool b)) s w) :
    Yields (evalExpr env call (.binary .both left right)) s w (.ok (.bool (a && b))) s w := by
  refine h.bind ?_
  cases a with
  | true => exact (pure true).bind ((h' rfl).bind ((pure b).map _))
  | false => exact (pure false).bind (.pure _)

/-! ## Statements -/

/-- A declared variable has the value of its expression. -/
theorem declared {name : String} {e : Expr} {d : Datum}
    (h : Yields (evalExpr env call e) s w (.ok d) s' w') :
    Yields (evalStmt env call (.declare name (some e))) s w (.ok .unit) ((name, d) :: s') w' := by
  exact h.bind ((declare name d).bind (.pure _))

/-- Nothing is declared where the expression of a variable halts. -/
theorem declared_halt {name : String} {e : Expr} {halt : Halt}
    (h : Yields (evalExpr env call e) s w (.error halt) s' w') :
    Yields (evalStmt env call (.declare name (some e))) s w (.error halt) s' w' := by
  exact h.bind_error

/-- A variable takes the value of an expression. -/
theorem set {name : String} {e : Expr} {d : Datum}
    (h : Yields (evalExpr env call e) s w (.ok d) s' w')
    (there : Keyed.contains name s' = true) :
    Yields (evalStmt env call (.assign ⟨name, []⟩ .set e)) s w (.ok .unit)
      (Keyed.modify name (fun _ => d) s') w' := by
  obtain ⟨old, found⟩ := Option.isSome_iff_exists.1 there
  have change : Yields (Location.modify ⟨name, []⟩ fun _ => some d) s' w' (.ok ())
      (Keyed.modify name (fun _ => d) s') w' :=
    (readVariable found).bind ((require rfl).bind (writeVariable d there))
  have assigned : Yields (evalAssignment env call ⟨name, []⟩ .set e) s w (.ok ())
      (Keyed.modify name (fun _ => d) s') w' := h.bind ((pure []).bind change)
  exact assigned.bind (.pure _)

/-- A variable keeps its value where the expression for another one halts. -/
theorem set_halt {name : String} {e : Expr} {halt : Halt}
    (h : Yields (evalExpr env call e) s w (.error halt) s' w') :
    Yields (evalStmt env call (.assign ⟨name, []⟩ .set e)) s w (.error halt) s' w' := by
  have assigned : Yields (evalAssignment env call ⟨name, []⟩ .set e) s w (.error halt) s' w' :=
    h.bind_error
  exact assigned.bind_error

/-- What an assignment makes of the old value. -/
def assignedValue? (assignment : Script.Assignment) (d old : Datum) : Option Datum :=
  match assignment with
  | .set => some d
  | .add => old.increase? d
  | .subtract => old.minus? d

/-- A part of a variable takes a new value. -/
theorem assigned {root : String} {path : List Script.Accessor} {assignment : Script.Assignment}
    {e : Expr} {steps : List Datum.Step} {d old new : Datum}
    (h : Yields (evalExpr env call e) s w (.ok d) s' w')
    (leads : Yields (evalPath env call path) s' w' (.ok steps) s' w')
    (there : Keyed.lookup root s' = some old)
    (changed : Datum.update? (assignedValue? assignment d) steps old = some new) :
    Yields (evalStmt env call (.assign ⟨root, path⟩ assignment e)) s w (.ok .unit)
      (Keyed.modify root (fun _ => new) s') w' := by
  have contained : Keyed.contains root s' = true := by
    rw [Keyed.contains, there]
    rfl
  have change : Yields (Location.modify ⟨root, steps⟩ (assignedValue? assignment d)) s' w' (.ok ())
      (Keyed.modify root (fun _ => new) s') w' :=
    (readVariable there).bind ((require changed).bind (writeVariable new contained))
  have whole : Yields (evalAssignment env call ⟨root, path⟩ assignment e) s w (.ok ())
      (Keyed.modify root (fun _ => new) s') w' := h.bind (leads.bind change)
  exact whole.bind (.pure _)

/-- A part of a variable that is not there takes no new value. -/
theorem assigned_fault {root : String} {path : List Script.Accessor}
    {assignment : Script.Assignment} {e : Expr} {steps : List Datum.Step} {d old : Datum}
    (h : Yields (evalExpr env call e) s w (.ok d) s' w')
    (leads : Yields (evalPath env call path) s' w' (.ok steps) s' w')
    (there : Keyed.lookup root s' = some old)
    (missing : Datum.update? (assignedValue? assignment d) steps old = none) :
    Yields (evalStmt env call (.assign ⟨root, path⟩ assignment e)) s w (.error .fault) s' w' := by
  have change : Yields (Location.modify ⟨root, steps⟩ (assignedValue? assignment d)) s' w'
      (.error .fault) s' w' :=
    (readVariable there).bind (require_none missing).bind_error
  have whole : Yields (evalAssignment env call ⟨root, path⟩ assignment e) s w (.error .fault) s'
      w' := h.bind (leads.bind change)
  exact whole.bind_error

/-- Nothing is assigned where the expression halts. -/
theorem assigned_halt {place : Script.Place} {assignment : Script.Assignment} {e : Expr}
    {halt : Halt} (h : Yields (evalExpr env call e) s w (.error halt) s' w') :
    Yields (evalStmt env call (.assign place assignment e)) s w (.error halt) s' w' := by
  have whole : Yields (evalAssignment env call place assignment e) s w (.error halt) s' w' :=
    h.bind_error
  exact whole.bind_error

/-- An expression is evaluated for what it does. -/
theorem run {e : Expr} {r : Except Halt Datum} (h : Yields (evalExpr env call e) s w r s' w') :
    Yields (evalStmt env call (.run e)) s w r s' w' := by
  exact h

/-- An expression is evaluated for its value. -/
theorem value {e : Expr} {r : Except Halt Datum} (h : Yields (evalExpr env call e) s w r s' w') :
    Yields (evalStmt env call (.value e)) s w r s' w' := by
  exact h

/-- The function is left with the value of an expression. -/
theorem leaveFunction {e : Expr} {d : Datum} (h : Yields (evalExpr env call e) s w (.ok d) s' w') :
    Yields (evalStmt env call (.leaveFunction (some e))) s w (.error (.returned d)) s' w' := by
  exact h.bind (.throw _)

/-- The value of an expression is raised. -/
theorem raised {e : Expr} {d : Datum} (h : Yields (evalExpr env call e) s w (.ok d) s' w') :
    Yields (evalStmt env call (.raise e)) s w (.error (.thrown d)) s' w' := by
  exact h.bind (.throw _)

/-- The next round of a loop is gone on with. -/
theorem nextRound : Yields (evalStmt env call .nextRound) s w (.error .nextRound) s w := by
  exact .throw _

/-- The block of a condition that holds is run, and the variables declared in it are dropped. -/
theorem branch_dropping {condition : Expr} {body otherwise : List Stmt}
    {branches : List (Expr × List Stmt)} {r : Except Halt Datum} {after : Entries}
    (h : Yields (evalExpr env call condition) s w (.ok (.bool true)) s w)
    (h' : Yields (evalBlock env call .unit body) s w r after w')
    (kept : after.drop (after.length - s.length) = s') :
    Yields (evalStmt env call (.branch ((condition, body) :: branches) otherwise)) s w r s' w' :=
  h.bind ((pure true).bind (h'.inBlock_dropping kept))

/-- The block of a condition that holds is run. -/
theorem branch_true {condition : Expr} {body otherwise : List Stmt}
    {branches : List (Expr × List Stmt)} {r : Except Halt Datum}
    (h : Yields (evalExpr env call condition) s w (.ok (.bool true)) s w)
    (h' : Yields (evalBlock env call .unit body) s w r s' w') (same : s'.length = s.length) :
    Yields (evalStmt env call (.branch ((condition, body) :: branches) otherwise)) s w r s' w' :=
  branch_dropping h h' (by rw [same, Nat.sub_self, List.drop_zero])

/-- Where a condition does not hold, the next one is looked at. -/
theorem branch_false {condition : Expr} {body otherwise : List Stmt}
    {branches : List (Expr × List Stmt)} {r : Except Halt Datum}
    (h : Yields (evalExpr env call condition) s w (.ok (.bool false)) s w)
    (h' : Yields (evalStmt env call (.branch branches otherwise)) s w r s' w') :
    Yields (evalStmt env call (.branch ((condition, body) :: branches) otherwise)) s w r s' w' :=
  h.bind ((pure false).bind h')

/-- Where no condition holds and nothing else is to be done, nothing is done. -/
theorem branch_none : Yields (evalStmt env call (.branch [] [])) s w (.ok .unit) s w :=
  inBlock (block_nil _) rfl

/-- A block that is not entered. -/
theorem branch_skipped {condition : Expr} {body : List Stmt}
    (h : Yields (evalExpr env call condition) s w (.ok (.bool false)) s w) :
    Yields (evalStmt env call (.branch [(condition, body)] [])) s w (.ok .unit) s w :=
  branch_false h branch_none

/-- A round of a loop drops the variable of its item. -/
theorem round {name : String} {item item' : Datum} {body : List Stmt} {r : Except Halt Datum}
    (h : Yields (evalBlock env call .unit body) ((name, item) :: s) w r ((name, item') :: s') w')
    (same : s'.length = s.length) :
    Yields (Host.asRound (Host.inBlock (Host.declare name item >>= fun _ =>
      evalBlock env call .unit body))) s w (roundResult r) s' w' := by
  refine (declare_then h).inBlock_dropping ?_ |>.asRound
  rw [List.length_cons, same, Nat.add_sub_cancel_left]
  rfl

/-- A loop goes through the items of an array. -/
theorem forEach {name : String} {items : Expr} {body : List Stmt} {ds : List Datum}
    {r : Except Halt Datum} (h : Yields (evalExpr env call items) s w (.ok (.array ds)) s' w')
    (h' : Yields (forItems (fun item => Host.asRound (Host.inBlock do
      Host.declare name item
      evalBlock env call .unit body)) ds) s' w' r s'' w'') :
    Yields (evalStmt env call (.forEach name items body)) s w r s'' w'' := by
  exact h.bind h'

/-- A loop without items does nothing. -/
theorem forItems_nil {round : Datum → Eval Bool} :
    Yields (forItems round []) s w (.ok .unit) s w := .pure _

/-- A loop goes on behind a round that asks for another one. -/
theorem forItems_cons {round : Datum → Eval Bool} {item : Datum} {items : List Datum}
    {r : Except Halt Datum} (h : Yields (round item) s w (.ok true) s' w')
    (h' : Yields (forItems round items) s' w' r s'' w'') :
    Yields (forItems round (item :: items)) s w r s'' w'' :=
  tick.bind (h.bind h')

/-- A loop ends with a round that halts. -/
theorem forItems_halt {round : Datum → Eval Bool} {item : Datum} {items : List Datum} {halt : Halt}
    (h : Yields (round item) s w (.error halt) s' w') :
    Yields (forItems round (item :: items)) s w (.error halt) s' w' :=
  tick.bind h.bind_error

end Yields

/-! ## Functions of the program -/

/-- The program of an environment has a function that takes the same parameters and does the same as
a given one. -/
def Environment.Provides (env : Environment) (f : Function) : Prop :=
  ∃ own, env.program.function? f.name f.arity = some own ∧ own.parameters = f.parameters ∧
    ∀ call v, evalBlock env call v own.body = evalBlock env call v f.body

/-- The program of an environment has no function of a name. -/
def Environment.Lacks (env : Environment) (name : String) : Prop :=
  ∀ arity, env.program.function? name arity = none

namespace Yields

/-- A function whose body comes to a result on some arguments, however deeply calls are nested. -/
def Comes (env : Environment) (f : Function) (values : List Datum) (w : World)
    (result : Except Halt Datum) (w' : World) : Prop :=
  ∀ depth, ∃ r inner, functionResult r = result ∧
    Yields (evalBlock env (Host.callFunction env depth) .unit f.body)
      (f.parameters.zip values).reverse w r inner w'

/-- A function that is called on its arguments comes to the result of its body, which sees the
arguments and calls other functions one level deeper. -/
theorem callFunction_succ {f own : Function} {values : List Datum} {r : Except Halt Datum}
    {inner : Entries} {depth : Nat} (parameters : own.parameters = f.parameters)
    (same : ∀ call v, evalBlock env call v own.body = evalBlock env call v f.body)
    (h : Yields (evalBlock env (Host.callFunction env depth) .unit f.body)
      (f.parameters.zip values).reverse w r inner w') :
    Yields (Host.callFunction env (depth + 1) own values) s w (functionResult r) s w' := by
  have called := h.asFunction.withScope (s := s)
  rw [← parameters, ← same] at called
  exact called

/-- A function that is called on its arguments comes to the result of its body. -/
theorem callFunction {f own : Function} {values : List Datum} {result : Except Halt Datum}
    {depth : Nat} (parameters : own.parameters = f.parameters)
    (same : ∀ call v, evalBlock env call v own.body = evalBlock env call v f.body)
    (h : Comes env f values w result w') :
    Yields (callFunction env depth own values) s w result s w' := by
  cases depth with
  | zero => exact exhausted _
  | succ depth =>
    obtain ⟨r, inner, rfl, body⟩ := h depth
    exact callFunction_succ parameters same body

/-- A call of a function that the program provides comes to the result of its body. -/
theorem call_provided {f : Function} {arguments : List Expr} {values : List Datum}
    {result : Except Halt Datum} {depth : Nat} (provides : env.Provides f)
    (h : Yields (evalItems env (Host.callFunction env depth) arguments) s w (.ok values) s' w')
    (count : values.length = f.arity) (h' : Comes env f values w' result w'') :
    Yields (evalExpr env (Host.callFunction env depth) (.call f.name arguments)) s w result s'
      w'' := by
  obtain ⟨own, found, parameters, same⟩ := provides
  exact call_function h (count ▸ found) (callFunction parameters same h')

end Yields

end Host

end Pipewright
