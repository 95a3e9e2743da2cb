import Pipewright.Proofs.Unit.Legible
import Pipewright.Proofs.Unit.Finish
import Pipewright.Proofs.Unit.Parts
import Pipewright.Unit.Source

/-! # Generated functions read as they are written
Every function of a generated unit is legible, as long as the names that stand in its remarks are
single lines and its settings name no function of the host. -/

namespace Pipewright

open Script (Expr Function Stmt isPlainWord isNameWord isIdentifier isLine
  isPlainWord_of_isNameWord)

/-! ## Lines -/

namespace Script

variable {a b : String}

/-- Lines one behind the other are a line. -/
theorem isLine_append (h : isLine a = true) (h' : isLine b = true) : isLine (a ++ b) = true := by
  unfold isLine at h h' ⊢
  rw [String.toList_append, List.all_append, h, h']
  rfl

/-- Characters of words make up a line. -/
theorem isLine_of_all (h : a.toList.all isWordChar = true) : isLine a = true := by
  unfold isLine
  rw [List.all_eq_true] at h ⊢
  intro c m
  have word := h c m
  rw [Bool.and_eq_true, bne_iff_ne, bne_iff_ne]
  constructor
  · rintro rfl
    exact absurd word (by decide)
  · rintro rfl
    exact absurd word (by decide)

/-- A word is a line. -/
theorem isLine_of_isPlainWord (h : isPlainWord a.toList = true) : isLine a = true := by
  refine isLine_of_all ?_
  unfold isPlainWord at h
  cases e : a.toList with
  | nil => rfl
  | cons c cs =>
    rw [e] at h
    exact (Bool.and_eq_true_iff.1 h).2

/-- Lines between lines are a line. -/
theorem isLine_intercalate {separator : String} {lines : List String}
    (h : isLine separator = true) (each : ∀ line ∈ lines, isLine line = true) :
    isLine (separator.intercalate lines) = true := by
  induction lines with
  | nil => rfl
  | cons line lines ih =>
    cases lines with
    | nil =>
      rw [String.intercalate_singleton]
      exact each line List.mem_cons_self
    | cons next lines =>
      rw [String.intercalate_cons_of_ne_nil (by simp)]
      exact isLine_append (isLine_append (each line List.mem_cons_self) h)
        (ih fun line m => each line (List.mem_cons_of_mem _ m))

/-! ## Statements that others may follow -/

/-- A legible statement that others may follow. -/
def Stmt.IsStep (stmt : Stmt) : Prop := stmt.isLegible = true ∧ stmt.isValue = false

variable {stmts more : List Stmt}

/-- Legible statements that others may follow, and legible statements behind them. -/
theorem Stmt.areLegible_append (h : ∀ stmt ∈ stmts, stmt.IsStep)
    (h' : Stmt.areLegible more = true) : Stmt.areLegible (stmts ++ more) = true := by
  induction stmts with
  | nil => exact h'
  | cons stmt stmts ih =>
    obtain ⟨legible, step⟩ := h stmt List.mem_cons_self
    show Stmt.areLegible (stmt :: (stmts ++ more)) = true
    unfold Stmt.areLegible
    rw [legible, step, ih fun stmt m => h stmt (List.mem_cons_of_mem _ m)]
    rfl

/-- Legible statements that others may follow. -/
theorem Stmt.areLegible_of (h : ∀ stmt ∈ stmts, stmt.IsStep) : Stmt.areLegible stmts = true := by
  have all := @Stmt.areLegible_append stmts [] h rfl
  rwa [List.append_nil] at all

/-- A legible expression at the end of a block. -/
theorem Stmt.areLegible_value {e : Expr} (h : e.isLegible = true) :
    Stmt.areLegible [.value e] = true := by
  unfold Stmt.areLegible Stmt.isLegible
  rw [h]
  rfl

end Script

open Script.Stmt (IsStep)

variable {e : Expr} {stmts : List Stmt}

namespace Script.Stmt.IsStep

/-- A remark of one line. -/
theorem note {text : String} (h : isLine text = true) : IsStep (.note text) := ⟨h, rfl⟩

/-- An empty line. -/
theorem gap : IsStep .gap := ⟨rfl, rfl⟩

/-- A declared variable with a legible value. -/
theorem declare {name : String} (word : isPlainWord name.toList = true)
    (h : e.isLegible = true) : IsStep (.declare name (some e)) := by
  refine ⟨?_, rfl⟩
  unfold Stmt.isLegible
  rw [word, h]
  rfl

/-- A place that gets a legible value. -/
theorem assign {place : Place} {assignment : Assignment} (target : place.expr.isLegible = true)
    (h : e.isLegible = true) : IsStep (.assign place assignment e) := by
  refine ⟨?_, rfl⟩
  unfold Stmt.isLegible
  rw [target, h]
  rfl

/-- A variable that gets a legible value. -/
theorem set {name : String} (word : isNameWord name = true) (h : e.isLegible = true) :
    IsStep (.set name e) :=
  @assign e ⟨name, []⟩ .set word h

/-- A legible expression with a semicolon behind it. -/
theorem run (h : e.isLegible = true) : IsStep (.run e) := ⟨h, rfl⟩

/-- A legible value that is raised. -/
theorem raise (h : e.isLegible = true) : IsStep (.raise e) := ⟨h, rfl⟩

/-- A legible block under a legible condition. -/
theorem branch (condition : e.isLegible = true) (h : Stmt.areLegible stmts = true) :
    IsStep (.branch [(e, stmts)] []) := by
  refine ⟨?_, rfl⟩
  unfold Stmt.isLegible Stmt.areLegibleBranches
  rw [condition, h]
  rfl

/-- A legible block with a legible handler. -/
theorem attempt {name : String} {handler : List Stmt} (word : isPlainWord name.toList = true)
    (h : Stmt.areLegible stmts = true) (h' : Stmt.areLegible handler = true) :
    IsStep (.attempt stmts (some name) handler) := by
  refine ⟨?_, rfl⟩
  unfold Stmt.isLegible
  rw [h, h', Option.all_some, word]
  rfl

end Script.Stmt.IsStep

/-! ## The function that runs a pipeline -/

/-- A report of a piece's start is legible. -/
theorem isStep_report (name : String) (piece pieces : Nat) :
    IsStep (reportStmt name piece pieces) := by
  refine .run ?_
  have zero : (Expr.float 0).isLegible = true := by decide +kernel
  have items : Expr.areLegible [.str name, .float 0, .int (Int64.ofNat piece),
      .int (Int64.ofNat pieces)] = true := by
    rw [Expr.areLegible, Expr.areLegible, zero]
    rfl
  exact Script.Expr.isLegible_method rfl (by decide) (by decide) items

namespace PipelineGraph

variable {g : PipelineGraph} {r : Registry} {key : SlotKey} {o : Operation} {i : Nat}

/-- What a slot is bound to is read from a variable that can stand in an expression. -/
theorem isNamed_of_binding (w : g.Wired r) (named : boundaryFault? g = none) {a : Access}
    (h : g.binding key = .ok (.access a)) : a.IsNamed := by
  rcases access_of_binding w h with ⟨source, there, first, rfl⟩ | ⟨source, -, o, -, -, -, rfl⟩
  · have atStart : source ∈ g.keysAt 0 := List.mem_filter.2 ⟨there, by simp [first]⟩
    have name := (named_of_boundaryFault? w named).1 source atStart
    exact isNameWord_of_isIdentifier (nameFault?_eq_none_iff.1 name).1
  · exact isNameWord_returnVariable _ _

/-- What a slot is bound to is read by a legible expression. -/
theorem isLegible_of_binding (w : g.Wired r) (named : boundaryFault? g = none) {b : Binding}
    (h : g.binding key = .ok b) : b.expr.isLegible = true :=
  b.isLegible_expr fun _ e => isNamed_of_binding w named (e ▸ h)

/-- The statements of a step are legible if the name of its operation is a line. -/
theorem isStep_of_stepStmts (w : g.Wired r) (named : boundaryFault? g = none)
    (at' : g.OperationAt r i o) (line : isLine o.name = true)
    (h : g.stepStmts r (g.keysAt i) = .ok stmts) : ∀ stmt ∈ stmts, stmt.IsStep := by
  obtain ⟨entries, layout, bound, rfl⟩ := stepStmts_eq at' w h
  obtain ⟨bindings, rfl, -, bound⟩ := exists_bindings bound
  have variable' := isNameWord_functionVariable i o.name
  have title : isLine ("step " ++ toString i ++ " - " ++ o.name) = true := by
    have digits : isLine (toString i) = true := Script.isLine_of_all (all_isWordChar_toString i)
    exact Script.isLine_append (Script.isLine_append (Script.isLine_append (by decide) digits)
      (by decide)) line
  have looked : (HostModule.operations.call "get" [.str o.name]).isLegible = true :=
    HostModule.isLegible_call .operations (by decide) (List.forall_mem_singleton.2 rfl)
  have progress : ∀ entry ∈ g.progressArguments i o, entry.2.isLegible = true := by
    unfold progressArguments
    cases o.progress? with
    | none => exact fun entry m => absurd m List.not_mem_nil
    | some name =>
      refine List.forall_mem_singleton.2 ?_
      exact Script.Expr.isLegible_method rfl (by decide) (by decide) rfl
  have passed : (Expr.object layout
      (bindings.map (fun b => (b.1, b.2.expr)) ++ g.progressArguments i o)).isLegible = true := by
    refine Script.Expr.isLegible_object fun entry m => ?_
    rcases List.mem_append.1 m with m | m
    · obtain ⟨b, m', rfl⟩ := List.mem_map.1 m
      exact isLegible_of_binding w named (bound b m')
    · exact progress entry m
  have invoked : (Expr.method (.var (functionVariable i o.name)) "invoke" [.object layout
      (bindings.map (fun b => (b.1, b.2.expr)) ++ g.progressArguments i o)]).isLegible = true :=
    Script.Expr.isLegible_method rfl variable' (by decide)
      (Script.Expr.areLegible_iff.2 (List.forall_mem_singleton.2 passed))
  refine List.forall_mem_cons.2 ⟨.note title, List.forall_mem_cons.2 ⟨isStep_report _ _ _,
    List.forall_mem_cons.2 ⟨.declare (isPlainWord_of_isNameWord variable') looked,
      List.forall_mem_singleton.2 (.set (isNameWord_returnVariable i o.name) invoked)⟩⟩⟩

/-- Blocks with empty lines between them consist of the statements of the blocks and empty lines. -/
theorem isStep_separateBlocks {blocks : List (List Stmt)}
    (h : ∀ block ∈ blocks, ∀ stmt ∈ block, stmt.IsStep) :
    ∀ stmt ∈ separateBlocks blocks, stmt.IsStep := by
  induction blocks with
  | nil => exact fun stmt m => absurd m List.not_mem_nil
  | cons block blocks ih =>
    obtain ⟨first, others⟩ := List.forall_mem_cons.1 h
    cases blocks with
    | nil => exact first
    | cons next blocks =>
      intro stmt m
      rw [separateBlocks.eq_3 _ _ (by simp)] at m
      rcases List.mem_append.1 m with m | m
      · exact first stmt m
      · rcases List.mem_cons.1 m with rfl | m
        · exact .gap
        · exact ih others stmt m

/-- The statements of all inner steps are legible if the names of the operations are lines. -/
theorem isStep_of_innerStmts (w : g.Wired r) (named : boundaryFault? g = none)
    (lines : ∀ i o, g.OperationAt r i o → isLine o.name = true)
    (h : g.innerStmts r = .ok stmts) : ∀ stmt ∈ stmts, stmt.IsStep := by
  unfold innerStmts at h
  cases e : g.innerSteps.mapM (g.stepStmts r) with
  | error fault =>
    rw [e] at h
    cases h
  | ok blocks =>
    rw [e] at h
    have same := Except.ok.inj h
    by_cases none : blocks.isEmpty = true
    · rw [if_pos none] at same
      subst same
      exact List.forall_mem_singleton.2 (.run rfl)
    · rw [if_neg none] at same
      subst same
      refine isStep_separateBlocks fun block m => ?_
      rw [w.innerSteps_eq] at e
      obtain ⟨keys, m', stmts⟩ := (mem_of_mapM_eq_ok e).1 m
      obtain ⟨i, range, rfl⟩ := List.mem_map.1 m'
      obtain ⟨first, last⟩ := List.mem_range'_1.1 range
      obtain ⟨o, at', -⟩ := w.exists_operationAt first (by omega)
      exact isStep_of_stepStmts w named at' (lines i o at') stmts

/-- The statement that removes the node at a named place is legible. -/
theorem isStep_removalStmt {a : Access} (h : a.IsNamed) : (removalStmt a).IsStep := by
  have place := a.isLegible_guarded h
  have kept : (Expr.call "_node_referenced_by" [a.guarded, .var "_retained"]).isLegible = true :=
    Script.Expr.isLegible_call (by decide)
      (List.forall_mem_cons.2 ⟨place, List.forall_mem_singleton.2 (by decide)⟩)
  have removed : (HostModule.scene.call "remove_node" [a.guarded]).isLegible = true :=
    HostModule.isLegible_call .scene (by decide) (List.forall_mem_singleton.2 place)
  refine .branch ?_ (Stmt.areLegible_of (List.forall_mem_singleton.2 (.run removed)))
  rw [Expr.isLegible, kept]
  rfl

/-- The statements that remove nodes are legible. -/
theorem isStep_cleanupStmts {managed returned : List Access} {inputs : List SlotKey}
    (managed' : ∀ a ∈ managed, a.IsNamed) (returned' : ∀ a ∈ returned, a.IsNamed)
    (inputs' : ∀ key ∈ inputs, isNameWord key.slot = true) :
    ∀ stmt ∈ g.cleanupStmts managed returned inputs, stmt.IsStep := by
  unfold cleanupStmts
  by_cases none : (removable managed returned).isEmpty = true
  · rw [if_pos none]
    exact List.forall_mem_singleton.2 (.note (by decide))
  · rw [if_neg none]
    have kept : (Expr.items ((g.retained returned inputs).map Access.guarded)).isLegible = true := by
      refine Script.Expr.isLegible_array fun e m => ?_
      obtain ⟨a, m', rfl⟩ := List.mem_map.1 m
      rcases mem_retained_iff.1 m' with there | ⟨key, there, -, rfl⟩
      · exact a.isLegible_guarded (returned' a there)
      · exact Access.isLegible_guarded (inputs' key there)
    refine List.forall_mem_cons.2 ⟨.declare (by decide) kept, fun stmt m => ?_⟩
    obtain ⟨a, m', rfl⟩ := List.mem_map.1 m
    exact isStep_removalStmt (managed' a (mem_removable_iff.1 m').1)

/-- The body of the function that runs a pipeline is legible if its parts are. -/
theorem areLegible_runBody {steps cleanup : List Stmt} {result : Expr}
    (steps' : ∀ stmt ∈ steps, stmt.IsStep) (cleanup' : ∀ stmt ∈ cleanup, stmt.IsStep)
    (result' : result.isLegible = true) :
    Stmt.areLegible (runBody g steps cleanup result) = true := by
  have declared : ∀ stmt ∈ g.resultVariables.map (fun name => Stmt.declare name (some .unit)),
      stmt.IsStep := by
    intro stmt m
    obtain ⟨name, m', rfl⟩ := List.mem_map.1 m
    obtain ⟨keys, -, found⟩ := List.mem_filterMap.1 m'
    obtain ⟨first, -, found⟩ := Option.bind_eq_some_iff.1 found
    obtain ⟨operation, -, same⟩ := Option.bind_eq_some_iff.1 found
    cases same
    exact .declare (isPlainWord_of_isNameWord (isNameWord_returnVariable _ _)) rfl
  have caught : ∀ stmt ∈ [Stmt.set "_failed" (.bool true), .set "_failure" (.var "err")],
      stmt.IsStep :=
    List.forall_mem_cons.2 ⟨.set (by decide) rfl,
      List.forall_mem_singleton.2 (.set (by decide) (by decide))⟩
  have attempted : IsStep (.attempt steps (some "err")
      [.set "_failed" (.bool true), .set "_failure" (.var "err")]) :=
    .attempt (by decide) (Stmt.areLegible_of steps') (Stmt.areLegible_of caught)
  have removing : IsStep (.branch [(.var removalName, cleanup)] []) :=
    .branch (by decide) (Stmt.areLegible_of cleanup')
  have raising : IsStep (.branch [(.var "_failed", [.raise (.var "_failure")])] []) :=
    .branch (by decide) (Stmt.areLegible_of (List.forall_mem_singleton.2 (.raise (by decide))))
  have opening : ∀ stmt ∈ [reportStmt "" 0 g.pieces,
      .note "declared up front so cleanup can see them if a step fails"], stmt.IsStep :=
    List.forall_mem_cons.2 ⟨isStep_report _ _ _, List.forall_mem_singleton.2 (.note (by decide))⟩
  have flags : ∀ stmt ∈ [Stmt.declare "_failed" (some (.bool false)),
      .declare "_failure" (some .unit)], stmt.IsStep :=
    List.forall_mem_cons.2 ⟨.declare (by decide) rfl,
      List.forall_mem_singleton.2 (.declare (by decide) rfl)⟩
  have behind : ∀ stmt ∈ [Stmt.gap, .attempt steps (some "err")
      [.set "_failed" (.bool true), .set "_failure" (.var "err")], .gap,
      .branch [(.var removalName, cleanup)] [], .gap,
      .branch [(.var "_failed", [.raise (.var "_failure")])] [], .gap,
      reportStmt "" g.pieces g.pieces, .gap], stmt.IsStep := by
    simp only [List.forall_mem_cons]
    exact ⟨.gap, attempted, .gap, removing, .gap, raising, .gap, isStep_report _ _ _, .gap,
      fun stmt m => absurd m List.not_mem_nil⟩
  -- put together in the order in which the body has its parts
  have all := Stmt.areLegible_append opening (Stmt.areLegible_append declared
    (Stmt.areLegible_append flags (Stmt.areLegible_append behind
      (Stmt.areLegible_value result'))))
  rw [runBody_eq]
  exact all

end PipelineGraph

end Pipewright
