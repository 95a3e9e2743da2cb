import Pipewright.Proofs.Script.Variables
import Pipewright.Proofs.Unit.Finish
import Pipewright.Proofs.Unit.Parts

/-! # What generated programs read
From a validated pipeline a program can always be generated, names and positions of overall inputs
and outputs apart. Every slot that takes a value is bound, and the program reads a variable only
when it holds an overall input or the result of an earlier step. -/

namespace Pipewright

open Script (Expr Function Stmt Supplied)

/-! ## Variables of literals and accesses -/

namespace Value

mutual

/-- A literal reads no variable. -/
theorem variables_spelling : (v : Value) → v.spelling.variables = []
  | .int n => by
    unfold spelling
    split <;> rfl
  | .float x => by
    unfold spelling
    split
    · rfl
    · split <;> rfl
  | .str _ => rfl
  | .bool _ => rfl
  | .list items => by
    unfold spelling Expr.items Expr.variables
    exact variablesOfItems_spellings items
  | .tuple _ => rfl
  | .dict _ => rfl

/-- Literals read no variable. -/
theorem variablesOfItems_spellings : (items : List Value) →
    Expr.variablesOfItems (spellings items) = []
  | [] => rfl
  | item :: items => by
    unfold spellings Expr.variablesOfItems
    rw [variables_spelling item, variablesOfItems_spellings items]
    rfl

end

end Value

/-- A field is read where its container is. -/
theorem Script.Expr.variables_member (target : Expr) (name : String) :
    (target.member name).variables = target.variables := by
  unfold Expr.member
  split
  · rfl
  · simp [Expr.variables]

/-- An access reads its variable. -/
theorem Access.variables_expr (a : Access) : a.expr.variables = [a.base] := by
  have fields : ∀ (path : List String) (target : Expr),
      (path.foldl Expr.member target).variables = target.variables := by
    intro path
    induction path with
    | nil => exact fun _ => rfl
    | cons name path ih =>
      intro target
      rw [List.foldl_cons, ih, Script.Expr.variables_member]
  rw [Access.expr, fields, Expr.variables]

namespace PipelineGraph

variable {g : PipelineGraph} {r : Registry} {key : SlotKey} {i bound : Nat} {o : Operation}
  {x : String}

/-! ## Bindings -/

/-- A variable holds a value when a step is begun: an overall input, or the result of an earlier
step. -/
inductive Available (g : PipelineGraph) (bound : Nat) : String → Prop where
  /-- An overall input is there from the start. -/
  | input {key : SlotKey} (there : key ∈ g.keysAt 0) : Available g bound key.slot
  /-- The result of an earlier step is there. -/
  | result {i : Nat} (first : 1 ≤ i) (before : i < bound) : Available g bound (g.stepVariable i)

/-- Every slot behind the first step that is not spelled like a return value is bound. -/
theorem Wired.exists_binding (w : g.Wired r) (m : key ∈ g.keys) (inner : key.step ≠ 0)
    (plain : ¬ SpelledReturn key.slot) : ∃ b, g.binding key = .ok b := by
  induction step : key.step using Nat.strongRecOn generalizing key with
  | ind n ih =>
    subst step
    unfold binding
    cases fixed : g.fixed? key with
    | some v => exact ⟨_, rfl⟩
    | none =>
      obtain ⟨source, producer⟩ := w.fed key m inner plain fixed
      obtain ⟨there, -, before⟩ := w.earlier producer
      simp only [producer]
      cases named : source.operation with
      | none => exact ⟨_, rfl⟩
      | some operation =>
        simp only
        by_cases isReturn : source.isReturn = true
        · rw [if_pos isReturn]
          exact ⟨_, rfl⟩
        · rw [if_neg isReturn, if_pos before]
          -- a parameter that feeds another slot is itself behind the first step
          obtain ⟨first, -, -⟩ := w.inner_of_bound there (by simp [named])
          exact ih source.step before there (by omega)
            (fun spelled => isReturn (isReturnSlot_iff.2 spelled)) rfl

/-- A binding reads an overall input or the result of an earlier step. -/
theorem Wired.available_of_binding (w : g.Wired r) {b : Binding} (h : g.binding key = .ok b)
    (m : x ∈ b.expr.variables) : g.Available key.step x := by
  cases b with
  | literal v =>
    rw [Binding.expr, Value.variables_spelling] at m
    cases m
  | access a =>
    rw [Binding.expr, Access.variables_expr, List.mem_singleton] at m
    subst m
    rcases access_of_binding w h with ⟨source, there, first, rfl⟩ |
      ⟨source, there, o, belongs, -, before, rfl⟩
    · exact .input (List.mem_filter.2 ⟨there, by simp [first]⟩)
    · exact .result (w.inner_of_bound there belongs.bound).1 before

/-- Every parameter of the operation of a step is bound, to what is available before the step. -/
theorem Wired.exists_arguments (w : g.Wired r) (built : r.Built) (at' : g.OperationAt r i o) :
    ∃ entries, g.arguments i o = .ok entries ∧
      ∀ x ∈ Expr.variablesOfEntries entries, g.Available i x := by
  obtain ⟨first, -⟩ := w.inner_of_operationAt at'
  have bind : ∀ parameter ∈ o.parameters, ∃ b,
      g.binding (.parameter i o.name parameter.1) = .ok b := by
    intro parameter m
    obtain ⟨there, plain⟩ := w.parameter_mem built at' (List.mem_map_of_mem m)
    exact w.exists_binding there (by show i ≠ 0; omega) plain
  unfold arguments
  generalize o.parameters = parameters at bind
  induction parameters with
  | nil => exact ⟨[], rfl, by simp [Expr.variablesOfEntries]⟩
  | cons parameter parameters ih =>
    obtain ⟨b, e⟩ := bind parameter List.mem_cons_self
    obtain ⟨entries, others, reads⟩ := ih fun p m => bind p (List.mem_cons_of_mem _ m)
    refine ⟨(parameter.1, b.expr) :: entries, ?_, fun x m => ?_⟩
    · rw [List.mapM_cons]
      simp only [e, others]
      rfl
    · rw [Expr.variablesOfEntries, List.mem_append] at m
      rcases m with m | m
      · exact w.available_of_binding e m
      · exact reads x m

/-! ## Steps -/

/-- The statements of a step read the callback, what is available before the step, and the operation
that they look up themselves; they give a value to the variable of the step. -/
theorem Wired.exists_stepStmts (w : g.Wired r) (built : r.Built) (at' : g.OperationAt r i o) :
    ∃ block, g.stepStmts r (g.keysAt i) = .ok block ∧
      ∀ given, callbackName ∈ given → (∀ x, g.Available i x → x ∈ given) →
        Supplied given block (g.stepVariable i :: functionVariable i o.name :: given) := by
  obtain ⟨first, last⟩ := w.inner_of_operationAt at'
  obtain ⟨o', at'', found⟩ := w.exists_operationAt first last
  cases w.operationAt_unique at' at''
  obtain ⟨entries, arguments, reads⟩ := w.exists_arguments built at'
  unfold stepStmts
  rw [found]
  simp only [bind, Except.bind, arguments, pure, Except.pure]
  refine ⟨_, rfl, fun given callback available => ?_⟩
  rw [w.stepVariable_operation built at']
  refine .note (.run (fun x m => ?_) (.declare (fun x m => ?_) (.assign (fun x m => ?_) .done)))
  · simp only [Expr.variables, Expr.variablesOfItems, List.append_nil, List.mem_singleton] at m
    exact m ▸ callback
  · cases m
  · simp only [Expr.variables, Expr.variablesOfItems, List.append_nil, List.mem_append,
      List.mem_singleton] at m
    rcases m with rfl | m
    · exact List.mem_cons_self
    · obtain ⟨entry, m, m'⟩ := Expr.mem_variablesOfEntries_iff.1 m
      refine List.mem_cons_of_mem _ ?_
      rcases List.mem_append.1 m with m | m
      · exact available x (reads x (Expr.mem_variablesOfEntries_iff.2 ⟨entry, m, m'⟩))
      · unfold progressArguments at m
        split at m
        · cases m
        · cases List.mem_singleton.1 m
          simp only [Expr.variables, Expr.variablesOfItems, List.append_nil,
            List.mem_singleton] at m'
          exact m' ▸ callback

/-- Blocks with empty lines between them read what they read one behind the other. -/
theorem supplied_separateBlocks_cons {given between after : List String} {block : List Stmt}
    {blocks : List (List Stmt)} (h : Supplied given block between)
    (h' : Supplied between (separateBlocks blocks) after) :
    Supplied given (separateBlocks (block :: blocks)) after := by
  cases blocks with
  | nil =>
    cases h'
    exact h
  | cons next blocks => exact h.append (.gap h')

/-- A block is one of those between which empty lines are put. -/
theorem infix_separateBlocks {block : List Stmt} {blocks : List (List Stmt)} (m : block ∈ blocks) :
    block <:+: separateBlocks blocks := by
  induction blocks with
  | nil => cases m
  | cons first blocks ih =>
    cases blocks with
    | nil => exact List.mem_singleton.1 m ▸ List.infix_rfl
    | cons next blocks =>
      rcases List.mem_cons.1 m with rfl | m
      · exact ⟨[], _, rfl⟩
      · exact (ih m).trans ⟨first ++ [.gap], [], by simp [separateBlocks]⟩

/-- The steps from one on read what is available before them, one after another, and give values to
their variables. -/
theorem Wired.exists_blocks (w : g.Wired r) (built : r.Built) {count : Nat} (first : 1 ≤ i)
    (last : i + count ≤ g.lastStep) :
    ∃ blocks, ((List.range' i count).map g.keysAt).mapM (g.stepStmts r) = .ok blocks ∧
      ∀ given, callbackName ∈ given → (∀ x, g.Available i x → x ∈ given) →
        ∃ after, Supplied given (separateBlocks blocks) after ∧ callbackName ∈ after ∧
          ∀ x, g.Available (i + count) x → x ∈ after := by
  induction count generalizing i with
  | zero => exact ⟨[], rfl, fun given callback available => ⟨given, .done, callback, available⟩⟩
  | succ count ih =>
    obtain ⟨o, at', -⟩ := w.exists_operationAt first (by omega)
    obtain ⟨block, e, supplied⟩ := w.exists_stepStmts built at'
    obtain ⟨blocks, others, rest⟩ := ih (i := i + 1) (by omega) (by omega)
    refine ⟨block :: blocks, ?_, fun given callback available => ?_⟩
    · rw [List.range'_succ, List.map_cons, List.mapM_cons, e]
      simp only [bind, Except.bind, others]
      rfl
    · have step := supplied given callback available
      obtain ⟨after, supplied', callback', available'⟩ :=
        rest _ (step.keeps callback) fun x h => by
          cases h with
          | input there => exact step.keeps (available _ (.input there))
          | @result j first' before =>
            by_cases same : j = i
            · subst same
              exact List.mem_cons_self
            · exact step.keeps (available _ (.result first' (by omega)))
      refine ⟨after, supplied_separateBlocks_cons step supplied', callback', fun x h => ?_⟩
      exact available' x (by rwa [Nat.add_assoc, Nat.add_comm 1 count])

/-- The statements of all inner steps read what is available before each of them. -/
theorem Wired.exists_innerStmts (w : g.Wired r) (built : r.Built) (several : 1 ≤ g.lastStep) :
    ∃ steps, g.innerStmts r = .ok steps ∧
      (∀ i o, g.OperationAt r i o → ∃ block, g.stepStmts r (g.keysAt i) = .ok block ∧
        block <:+: steps) ∧
      ∀ given, callbackName ∈ given → (∀ key ∈ g.keysAt 0, key.slot ∈ given) →
        ∃ after, Supplied given steps after ∧ ∀ x, g.Available g.lastStep x → x ∈ after := by
  obtain ⟨blocks, e, supplied⟩ :=
    w.exists_blocks built (Nat.le_refl 1) (Nat.le_of_eq (Nat.add_sub_of_le several))
  rw [Nat.add_sub_cancel' several] at supplied
  -- before the first step only the overall inputs are available
  have start : ∀ given : List String, (∀ key ∈ g.keysAt 0, key.slot ∈ given) →
      ∀ x, g.Available 1 x → x ∈ given := by
    intro given there x h
    cases h with
    | input m => exact there _ m
    | result first before => omega
  have steps : ∀ i o, g.OperationAt r i o → ∃ block ∈ blocks,
      g.stepStmts r (g.keysAt i) = .ok block := by
    intro i o at'
    obtain ⟨first, last⟩ := w.inner_of_operationAt at'
    obtain ⟨block, found, -⟩ := w.exists_stepStmts built at'
    refine ⟨block, (mem_of_mapM_eq_ok e).2 ⟨g.keysAt i, ?_, found⟩, found⟩
    exact List.mem_map_of_mem (List.mem_range'_1.2 ⟨first, by omega⟩)
  unfold innerStmts
  rw [w.innerSteps_eq, e]
  simp only [bind, Except.bind, pure, Except.pure]
  refine ⟨_, rfl, fun i o at' => ?_, fun given callback inputs => ?_⟩
  · obtain ⟨block, m, found⟩ := steps i o at'
    rw [if_neg (by simpa using List.ne_nil_of_mem m)]
    exact ⟨block, found, infix_separateBlocks m⟩
  · obtain ⟨after, supplied', -, available⟩ := supplied given callback (start given inputs)
    split
    -- without inner steps there is a statement that does nothing
    · next none =>
      rw [List.isEmpty_iff.1 none] at supplied'
      cases supplied'
      exact ⟨_, .run (by simp [Expr.variables]) .done, available⟩
    · exact ⟨after, supplied', available⟩

/-- The last expression reads what is available when all steps have been run. -/
theorem available_of_resultExpr (w : g.Wired r) {name : String} {outputs : List SlotKey}
    {returned : List Binding} (last : ∀ key ∈ outputs, key.step = g.lastStep)
    (bound : outputs.mapM g.binding = .ok returned)
    (m : x ∈ (resultExpr name returned).variables) : g.Available g.lastStep x := by
  have each : ∀ b ∈ returned, ∀ x ∈ b.expr.variables, g.Available g.lastStep x := by
    intro b m x m'
    obtain ⟨key, there, e⟩ := (mem_of_mapM_eq_ok bound).1 m
    exact last key there ▸ w.available_of_binding e m'
  unfold resultExpr at m
  split at m
  · exact each _ List.mem_cons_self x m
  · obtain ⟨e, m, m'⟩ := Expr.mem_variablesOfItems_iff.1 m
    obtain ⟨b, there, rfl⟩ := List.mem_map.1 m
    exact each b there x m'

/-! ## The whole function -/

/-- The statements of the inner steps and the expression of what is returned, which make up the body of
a function, read only variables that have a value. -/
structure SuppliedRun (g : PipelineGraph) (r : Registry) (inputs : List SlotKey)
    (body steps : List Stmt) (result : Expr) : Prop where
  /-- The parameters are the overall inputs. -/
  ordered : g.orderedInputs = .ok inputs
  /-- The statements are those of the inner steps. -/
  generated : g.innerStmts r = .ok steps
  /-- A step reads the callback, what is available before it, and the operation that it has looked
  up itself; then it gives a value to its variable. -/
  each : ∀ i o, g.OperationAt r i o → ∃ block, g.stepStmts r (g.keysAt i) = .ok block ∧
    block <:+: steps ∧ ∀ given, callbackName ∈ given → (∀ x, g.Available i x → x ∈ given) →
      Supplied given block (g.stepVariable i :: functionVariable i o.name :: given)
  /-- When the function is called only its parameters have values; when all steps have been run,
  everything that is available has one. -/
  all : ∃ after, Supplied (callbackName :: inputs.map SlotKey.slot) steps after ∧
    ∀ x, g.Available g.lastStep x → x ∈ after
  /-- What is returned is read from what is available then. -/
  returned : ∀ x ∈ result.variables, g.Available g.lastStep x
  /-- The variables of the steps are declared up front, behind them the statements are tried, and what
  is returned comes last, behind the raising of a failure that was met. -/
  whole : ∃ front between,
    body = front ++ .attempt steps (some "err") [.set "_failed" (.bool true),
      .set "_failure" (.var "err")] :: between ++ [.value result] ∧
    (∀ i, 1 ≤ i → i < g.lastStep → .declare (g.stepVariable i) (some .unit) ∈ front) ∧
    .branch [(.var "_failed", [.raise (.var "_failure")])] [] ∈ between

/-- In a piece that is generated the steps and what is returned are supplied. -/
theorem RunParts.supplied (w : g.Wired r) (built : r.Built) {name : String} {s : Settings}
    {piece : Piece} {inputs outputs : List SlotKey} {steps : List Stmt} {returned : List Binding}
    {places : List Access} (h : g.RunParts r name s piece inputs outputs steps returned places)
    (cleanup : List Stmt) :
    g.SuppliedRun r inputs (runBody g steps cleanup (resultExpr (name ++ "Outputs") returned)) steps
      (resultExpr (name ++ "Outputs") returned) := by
  have several := h.several
  rw [w.groups_eq, List.length_map, List.length_range] at several
  have first := namedKeys_of_orderedInputs w h.named h.ordered
  have last := namedKeys_of_orderedOutputs w h.named h.ordered'
  obtain ⟨steps', generated, blocks, supplied⟩ := w.exists_innerStmts built (by omega)
  cases h.generated.symm.trans generated
  refine ⟨h.ordered, generated, fun i o at' => ?_, ?_, fun x m => ?_, ?_⟩
  · obtain ⟨block, found, part⟩ := blocks i o at'
    obtain ⟨block', found', reads⟩ := w.exists_stepStmts built at'
    cases found.symm.trans found'
    exact ⟨block, found, part, reads⟩
  · refine supplied _ List.mem_cons_self fun key m => List.mem_cons_of_mem _ ?_
    exact List.mem_map_of_mem (first.perm.mem_iff.2 m)
  · refine available_of_resultExpr w (fun key m => ?_) h.bound m
    simpa [keysAt] using (List.mem_filter.1 (last.perm.mem_iff.1 m)).2
  -- the variables that are declared up front are those of the inner steps
  · refine ⟨_, [.gap, .branch [(.var removalName, cleanup)] [], .gap,
        .branch [(.var "_failed", [.raise (.var "_failure")])] [], .gap,
        reportStmt "" g.pieces g.pieces, .gap],
      runBody_eq_append g steps cleanup _, fun i inner inner' => ?_, by simp⟩
    rw [w.resultVariables_eq]
    refine List.mem_append_left _ (List.mem_append_right _ (List.mem_map_of_mem ?_))
    exact List.mem_map_of_mem (List.mem_range'_1.2 ⟨inner, by omega⟩)

/-- Doubling a number. -/
def doubling : Registration where
  name := "double"
  signature := ⟨[("n", some .int)], some .int⟩
  dependencies := []
  categories := []
  implementation c := do
    let n ← c.int "n"
    return .int (n + n)

/-- The registry in which numbers can be doubled. -/
def doublings : Registry :=
  ⟨[("double", ⟨"double", [("n", .int)], .int, none, [], [], doubling.implementation⟩)]⟩

end PipelineGraph

end Pipewright
