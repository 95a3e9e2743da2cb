import Pipewright.Proofs.Unit.Body

/-! # How the function that runs a pipeline ends
With what the outputs carry, with the message of the operation that failed, or with a message from
the removal of nodes; in between the operations of the steps are called as the graph says. -/

namespace Pipewright.PipelineGraph

open Host (Environment Yields evalBlock evalExpr evalStmt callFunction)
open Script (Expr Stmt)

section Finishes

variable (g : PipelineGraph) (r : Registry) (inputs : List (SlotKey × Datum))
  (callback : Progress.Callback) (removes : Bool) (managed returned : List Access) (started : World)

/-- The variables of the function when all steps have been run, or one has failed. -/
def endScope (e : Ending) : Entries :=
  g.runScope inputs callback removes e.results e.failure?.isSome (e.failure?.elim .unit .text)

/-- The calls of the operations of all inner steps, one after another. -/
def Completes (e : Ending) (after : World) : Prop :=
  g.Executes r Value.reading inputs callback (List.range' 1 (g.lastStep - 1)) [] started e after

/-- How the function that runs a pipeline ends, and in which world. -/
inductive Finishes : Except Host.Halt Datum → World → Prop where
  /-- All steps have been run, and there is something to return. -/
  | returned {e : Ending} {after : World} {d : Datum}
    (completes : g.Completes r inputs callback started e after) (through : e.failure? = none)
    (calm : straying? removes managed returned (g.endScope inputs callback removes e) = none)
    (returns : g.Returns Value.reading inputs e.results d) :
    Finishes (.ok d)
      ((g.cleaned inputs removes managed returned (g.endScope inputs callback removes e)
        after).report callback "" 0 (Int64.ofNat g.pieces) (Int64.ofNat g.pieces))
  /-- A step has failed. -/
  | raised {e : Ending} {after : World} {message : String}
    (completes : g.Completes r inputs callback started e after)
    (failure : e.failure? = some message)
    (calm : straying? removes managed returned (g.endScope inputs callback removes e) = none) :
    Finishes (.error (.thrown (.text message)))
      (g.cleaned inputs removes managed returned (g.endScope inputs callback removes e) after)
  /-- Something else was found in the place of a node that was to be removed. -/
  | strayed {e : Ending} {after w : World} {message : String}
    (completes : g.Completes r inputs callback started e after)
    (stray : straying? removes managed returned (g.endScope inputs callback removes e) =
      some message) (heard : w.board = after.board) : Finishes (.error (.thrown (.text message))) w
  /-- A step could not be run. -/
  | stuck {d : Datum} {reached w : World}
    (stuck : g.GetsStuck r inputs callback (List.range' 1 (g.lastStep - 1)) [] started reached)
    (heard : w.board = reached.board) : Finishes (.error (.thrown d)) w
  /-- All steps have been run, but there is nothing to return. -/
  | missed {e : Ending} {after w : World} {halt : Host.Halt} {seen : Datum}
    (completes : g.Completes r inputs callback started e after) (through : e.failure? = none)
    (nothing : ∀ d, ¬ g.Returns Value.reading inputs e.results d)
    (caught : halt.caught? = some seen)
    (heard : w.board =
      (after.report callback "" 0 (Int64.ofNat g.pieces) (Int64.ofNat g.pieces)).board) :
    Finishes (.error halt) w

end Finishes

variable {g : PipelineGraph} {r : Registry} {inputs : List (SlotKey × Datum)}
  {callback : Progress.Callback} {removes failed : Bool} {results : List (Nat × Datum)}
  {failure : Datum} {env : Environment} {before after : World} {steps : List Stmt}

/-- When all of some steps have been run, the results of all steps up to them are known. -/
theorem Executes.known {read : Value → Option Datum} {i count : Nat} {e : Ending}
    (h : g.Executes r read inputs callback (List.range' i count) results before e after)
    (through : e.failure? = none)
    (known : ∀ j, 1 ≤ j → j < i → (Keyed.lookup j results).isSome) :
    ∀ j, 1 ≤ j → j < i + count → (Keyed.lookup j e.results).isSome := by
  induction count generalizing i results before with
  | zero =>
    cases h
    exact known
  | succ count ih =>
    rw [List.range'_succ] at h
    cases h with
    | step at' called succeeds others =>
      have rest := ih others (known_succ known)
      intro j first last
      exact rest j first (by omega)
    | failed => cases through

/-- The statements of all inner steps call the operations one after another, until one fails or a
step is stuck. -/
theorem yields_innerStmts (call : Host.Caller) (before : World) (callback : Progress.Callback)
    (removes failed : Bool) (failure : Datum) (calls : env.Calls) (w : g.Wired env.registry)
    (built : env.registry.Built) (named : g.NamedKeys 0 (inputs.map Prod.fst))
    (inner : 1 ≤ g.lastStep) (h : g.innerStmts env.registry = .ok steps) :
    ∃ locals,
      ((∃ e after v, g.Completes env.registry inputs callback before e after ∧
        Yields (evalBlock env call .unit steps)
          (g.runScope inputs callback removes [] failed failure) before (e.result v)
          (locals ++ g.runScope inputs callback removes e.results failed failure) after) ∨
      (∃ halt seen results after,
        g.GetsStuck env.registry inputs callback (List.range' 1 (g.lastStep - 1)) [] before after ∧
        halt.caught? = some seen ∧
        Yields (evalBlock env call .unit steps)
          (g.runScope inputs callback removes [] failed failure) before (.error halt)
          (locals ++ g.runScope inputs callback removes results failed failure) after)) := by
  unfold innerStmts at h
  cases e : g.innerSteps.mapM (g.stepStmts env.registry) with
  | error fault =>
    rw [e] at h
    cases h
  | ok blocks =>
    rw [e] at h
    rw [w.innerSteps_eq] at e
    cases none : blocks.isEmpty with
    | true =>
      -- without inner steps a statement stands in their place that does nothing
      have last : g.lastStep - 1 = 0 := by
        have length := (mapM_eq_ok_iff.1 e).length_eq
        rw [List.isEmpty_iff.1 none] at length
        simpa using length
      have nothing : steps = [.run .unit] := by
        have same := Except.ok.inj h
        rw [if_pos none] at same
        exact same.symm
      subst nothing
      unfold Completes
      rw [last]
      exact ⟨[], .inl ⟨_, before, .unit, .done, .block_single rfl (.run .unit)⟩⟩
    | false =>
      have separated : steps = separateBlocks blocks := by
        have same := Except.ok.inj h
        rw [if_neg (by simp [none])] at same
        exact same.symm
      subst separated
      have none' : HoldsOperations [] := fun _ m => absurd m List.not_mem_nil
      have early : ∀ j, 1 ≤ j → j < 1 → (Keyed.lookup j ([] : List (Nat × Datum))).isSome :=
        fun j first before => by omega
      obtain ⟨locals, -, ends⟩ := yields_steps call before callback removes failed failure calls w
        built named e (Nat.le_refl 1) (by omega) none' early .unit
      exact ⟨locals, ends⟩

/-! ## Behind the steps -/

section Closing

variable {depth : Nat} {managed returned : List Access} {result : Expr} {v : Datum}

/-- The statements behind the steps: nodes are removed, a failure is raised again, and something is
returned. -/
def closingStmts (g : PipelineGraph) (cleanup : List Stmt) (result : Expr) : List Stmt :=
  [.gap, .branch [(.var removalName, cleanup)] [], .gap,
    .branch [(.var "_failed", [.raise (.var "_failure")])] [], .gap,
    reportStmt "" g.pieces g.pieces, .gap, .value result]

/-- Where the removal of nodes raises a message, that is the end. -/
theorem yields_closing_strayed {call : Host.Caller} {s : Entries} {halt : Host.Halt}
    {cleanup : List Stmt}
    (h : Yields (evalStmt env call (.branch [(.var removalName, cleanup)] [])) s before
      (.error halt) s after) :
    Yields (evalBlock env call v (g.closingStmts cleanup result)) s before (.error halt) s after :=
  .block_remark rfl (.block_halt rfl h)

/-- The failure of a step is raised again. -/
theorem yields_closing_failed {call : Host.Caller} {d : Datum} {cleanup : List Stmt}
    (h : Yields (evalStmt env call (.branch [(.var removalName, cleanup)] []))
      (g.runScope inputs callback removes results true failure) before (.ok d)
      (g.runScope inputs callback removes results true failure) after) :
    Yields (evalBlock env call v (g.closingStmts cleanup result))
      (g.runScope inputs callback removes results true failure) before (.error (.thrown failure))
      (g.runScope inputs callback removes results true failure) after := by
  have raised : Yields (evalStmt env call (.branch [(.var "_failed", [.raise (.var "_failure")])] []))
      (g.runScope inputs callback removes results true failure) after (.error (.thrown failure))
      (g.runScope inputs callback removes results true failure) after :=
    .branch_true (.var rfl) (.block_single rfl (.raised (.var rfl))) rfl
  exact .block_remark rfl (.block_cons rfl h (.block_remark rfl (.block_halt rfl raised)))

/-- Where no step has failed, the end is reported and the last expression is evaluated. -/
theorem yields_closing_through {call : Host.Caller} (calls : env.Calls) (w : g.Wired env.registry)
    (named : g.NamedKeys 0 (inputs.map Prod.fst)) {d : Datum} {cleanup : List Stmt}
    {r : Except Host.Halt Datum} {last : World}
    (h : Yields (evalStmt env call (.branch [(.var removalName, cleanup)] []))
      (g.runScope inputs callback removes results false failure) before (.ok d)
      (g.runScope inputs callback removes results false failure) after)
    (h' : Yields (evalExpr env call result)
      (g.runScope inputs callback removes results false failure)
      (after.report callback "" 0 (Int64.ofNat g.pieces) (Int64.ofNat g.pieces)) r
      (g.runScope inputs callback removes results false failure) last) :
    Yields (evalBlock env call v (g.closingStmts cleanup result))
      (g.runScope inputs callback removes results false failure) before r
      (g.runScope inputs callback removes results false failure) last := by
  have passed : Yields (evalStmt env call (.branch [(.var "_failed", [.raise (.var "_failure")])] []))
      (g.runScope inputs callback removes results false failure) after (.ok .unit)
      (g.runScope inputs callback removes results false failure) after :=
    .branch_skipped (.var rfl)
  have reported : Yields (evalStmt env call (reportStmt "" g.pieces g.pieces))
      (g.runScope inputs callback removes results false failure) after (.ok .unit)
      (g.runScope inputs callback removes results false failure)
      (after.report callback "" 0 (Int64.ofNat g.pieces) (Int64.ofNat g.pieces)) :=
    Host.yields_report calls (lookup_callbackName w named) "" g.pieces g.pieces
  exact .block_remark rfl (.block_cons rfl h (.block_remark rfl (.block_cons rfl passed
    (.block_remark rfl (.block_cons rfl reported (.block_remark rfl
      (.block_single rfl (.value h'))))))))

end Closing

/-! ## The whole body -/

/-- What the body of the function is made of: declarations, the steps, and what is behind them. -/
theorem runBody_eq (g : PipelineGraph) (steps cleanup : List Stmt) (result : Expr) :
    runBody g steps cleanup result =
      reportStmt "" 0 g.pieces ::
        .note "declared up front so cleanup can see them if a step fails" ::
        (g.resultVariables.map (fun name => Stmt.declare name (some .unit)) ++
          .declare "_failed" (some (.bool false)) :: .declare "_failure" (some .unit) :: .gap ::
          .attempt steps (some "err") [.set "_failed" (.bool true), .set "_failure" (.var "err")] ::
          g.closingStmts cleanup result) := by
  simp [runBody, closingStmts]

/-- The same as three lists: what is in front of the steps, the steps and what is behind them, and what
is returned. -/
theorem runBody_eq_append (g : PipelineGraph) (steps cleanup : List Stmt) (result : Expr) :
    runBody g steps cleanup result =
      ([reportStmt "" 0 g.pieces, .note "declared up front so cleanup can see them if a step fails"] ++
        g.resultVariables.map (fun name => .declare name (some .unit)) ++
        [.declare "_failed" (some (.bool false)), .declare "_failure" (some .unit), .gap]) ++
      .attempt steps (some "err") [.set "_failed" (.bool true), .set "_failure" (.var "err")] ::
        [.gap, .branch [(.var removalName, cleanup)] [], .gap,
          .branch [(.var "_failed", [.raise (.var "_failure")])] [], .gap,
          reportStmt "" g.pieces g.pieces, .gap] ++ [.value result] := by
  simp [runBody]

/-- The function that runs a pipeline calls the operations of the steps as the graph says, and ends
as that comes to. -/
theorem yields_runBody {depth : Nat} (calls : env.Calls) (searches : env.Searches)
    (w : g.Wired env.registry) (built : env.registry.Built) (inner : 1 ≤ g.lastStep)
    (named : g.NamedKeys 0 (inputs.map Prod.fst)) {outputs : List SlotKey}
    (named' : g.NamedKeys g.lastStep outputs) (h : g.innerStmts env.registry = .ok steps)
    {returned : List Binding} (bound : outputs.mapM g.binding = .ok returned)
    {managed : List Access} (managed' : g.managed env.registry = .ok managed) {name : String}
    (provides : 1 < returned.length → env.Provides (outputsFunction name outputs)) :
    ∃ r s after, Yields (evalBlock env (callFunction env depth) .unit
        (runBody g steps
          (g.cleanupStmts managed (returned.filterMap Binding.access?) (inputs.map Prod.fst))
          (resultExpr name returned)))
        (callScope inputs callback removes) before r s after ∧
      g.Finishes env.registry inputs callback removes managed
        (returned.filterMap Binding.access?)
        (before.report callback "" 0 0 (Int64.ofNat g.pieces)) r after := by
  let started := before.report callback "" 0 0 (Int64.ofNat g.pieces)
  let accesses := returned.filterMap Binding.access?
  let cleanup := g.cleanupStmts managed accesses (inputs.map Prod.fst)
  let open' := g.runScope inputs callback removes [] false .unit
  have accesses' : ∀ a ∈ accesses, ∃ key, g.binding key = .ok (.access a) := by
    intro a m
    obtain ⟨b, m', e⟩ := List.mem_filterMap.1 m
    obtain ⟨key, -, bound'⟩ := (mem_of_mapM_eq_ok bound).1 m'
    cases b with
    | literal v => cases e
    | access a' =>
      cases e
      exact ⟨key, bound'⟩
  -- what is in front of the attempt only reports and declares
  have opened : ∀ {r s after},
      Yields (evalBlock env (callFunction env depth) .unit
        (.attempt steps (some "err") [.set "_failed" (.bool true), .set "_failure" (.var "err")] ::
          g.closingStmts cleanup (resultExpr name returned))) open' started r s after →
      Yields (evalBlock env (callFunction env depth) .unit
        (runBody g steps cleanup (resultExpr name returned))) (callScope inputs callback removes)
        before r s after := by
    intro r s after rest
    rw [runBody_eq]
    have reported : Yields (evalStmt env (callFunction env depth) (reportStmt "" 0 g.pieces))
        (callScope inputs callback removes) before (.ok .unit) (callScope inputs callback removes)
        started := Host.yields_report calls rfl "" 0 g.pieces
    refine .block_cons rfl reported (.block_remark rfl (Host.yields_declarations fun v => ?_))
    refine .block_cons rfl (.declared (.bool false)) (.block_cons rfl (.declared .unit)
      (.block_remark rfl ?_))
    have scope : open' = _ := runScope_eq w
    rw [← scope]
    exact rest
  obtain ⟨locals, ⟨e, after, v, completes, ran⟩ | ⟨halt, seen, results, after, stuck, caught, ran⟩⟩ :=
    yields_innerStmts (callFunction env depth) started callback removes false .unit calls w built
      named inner h
  · cases failure : e.failure? with
    | some message =>
      have ran' : Yields (evalBlock env (callFunction env depth) .unit steps) open' started
          (.error (.thrown (.text message)))
          (locals ++ g.runScope inputs callback removes e.results false .unit) after := by
        unfold Ending.result at ran
        rw [failure] at ran
        exact ran
      have attempted := yields_attempt_caught rfl ran'
      have scope : g.endScope inputs callback removes e =
          g.runScope inputs callback removes e.results true (.text message) := by
        rw [endScope, failure]
        rfl
      obtain ⟨r, last, removing, ends⟩ := yields_removing depth after callback removes true
        e.results (.text message) searches w built named managed' accesses'
      rw [← scope] at ends
      cases stray : straying? removes managed accesses (g.endScope inputs callback removes e) with
      | some message' =>
        rw [stray] at ends
        obtain ⟨rfl, heard⟩ := ends
        exact ⟨_, _, last, opened (.block_cons rfl attempted (yields_closing_strayed removing)),
          .strayed completes stray heard⟩
      | none =>
        rw [stray] at ends
        obtain ⟨⟨d, rfl⟩, rfl⟩ := ends
        exact ⟨_, _, _, opened (.block_cons rfl attempted (yields_closing_failed removing)),
          .raised completes failure stray⟩
    | none =>
      have ran' : Yields (evalBlock env (callFunction env depth) .unit steps) open' started
          (.ok v) (locals ++ g.runScope inputs callback removes e.results false .unit) after := by
        unfold Ending.result at ran
        rw [failure] at ran
        exact ran
      have attempted := yields_attempt_ok ran'
      have scope : g.endScope inputs callback removes e =
          g.runScope inputs callback removes e.results false .unit := by
        rw [endScope, failure]
        rfl
      obtain ⟨r, last, removing, ends⟩ := yields_removing depth after callback removes false
        e.results .unit searches w built named managed' accesses'
      rw [← scope] at ends
      cases stray : straying? removes managed accesses (g.endScope inputs callback removes e) with
      | some message' =>
        rw [stray] at ends
        obtain ⟨rfl, heard⟩ := ends
        exact ⟨_, _, last, opened (.block_cons rfl attempted (yields_closing_strayed removing)),
          .strayed completes stray heard⟩
      | none =>
        rw [stray] at ends
        obtain ⟨⟨d, rfl⟩, rfl⟩ := ends
        have known : ∀ j, 1 ≤ j → j < g.lastStep → (Keyed.lookup j e.results).isSome := by
          intro j first last
          exact completes.known failure (fun j first before => by omega) j first (by omega)
        have none' : HoldsOperations [] := fun _ m => absurd m List.not_mem_nil
        have shows' : g.Shows inputs e.results g.lastStep
            (g.runScope inputs callback removes e.results false .unit) :=
          shows_runScope w named none' (Nat.le_refl _) known
        rcases yields_result depth (World.report _ callback "" 0 (Int64.ofNat g.pieces)
          (Int64.ofNat g.pieces)) calls shows' w named' bound provides with
          ⟨d', returns, evaluated⟩ | ⟨nothing, halt, seen, caught, halts⟩
        · exact ⟨_, _, _, opened (.block_cons rfl attempted
            (yields_closing_through calls w named removing evaluated)),
            .returned completes failure stray returns⟩
        · exact ⟨_, _, _, opened (.block_cons rfl attempted
            (yields_closing_through calls w named removing halts)),
            .missed completes failure nothing caught
              (congrArg (fun b => Progress.Board.report b _ _ _ _ _) (board_cleaned _ _))⟩
  · have attempted := yields_attempt_caught caught ran
    obtain ⟨r, last, removing, ends⟩ := yields_removing depth after callback removes true results
      seen searches w built named managed' accesses'
    cases stray : straying? removes managed accesses
        (g.runScope inputs callback removes results true seen) with
    | some message =>
      rw [stray] at ends
      obtain ⟨rfl, heard⟩ := ends
      exact ⟨_, _, last, opened (.block_cons rfl attempted (yields_closing_strayed removing)),
        .stuck stuck heard⟩
    | none =>
      rw [stray] at ends
      obtain ⟨⟨d, rfl⟩, rfl⟩ := ends
      exact ⟨_, _, _, opened (.block_cons rfl attempted (yields_closing_failed removing)),
        .stuck stuck (board_cleaned _ _)⟩

end Pipewright.PipelineGraph
