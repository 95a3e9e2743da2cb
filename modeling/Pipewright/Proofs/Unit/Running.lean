import Pipewright.Proofs.Unit.Steps

/-! # The run of all steps
From one step to all of them: the statements of the inner steps call the operations as the meaning
of the graph says, until one fails, and keep the results in the variables of the steps. -/

namespace Pipewright

open Host (Environment Yields evalBlock)
open Script (Expr Stmt)

namespace PipelineGraph

/-- Blocks with empty lines between them do what they do one behind the other. -/
theorem evalBlock_separateBlocks_cons {env : Environment} {call : Host.Caller} (v : Datum)
    (block : List Stmt) (blocks : List (List Stmt)) :
    evalBlock env call v (separateBlocks (block :: blocks)) =
      evalBlock env call v (block ++ separateBlocks blocks) := by
  cases blocks with
  | nil => rw [separateBlocks, separateBlocks, List.append_nil]
  | cons next blocks =>
    have gap : ∀ d, evalBlock env call d (.gap :: separateBlocks (next :: blocks)) =
        evalBlock env call d (separateBlocks (next :: blocks)) := fun d =>
      Host.evalBlock_remark rfl d _
    rw [separateBlocks, Host.evalBlock_append, Host.evalBlock_append]
    · simp only [gap]
    · simp

/-- What a block comes to that calls the operations of steps: the message of the failure is raised,
if there is one. -/
def Ending.result (e : Ending) (v : Datum) : Except Host.Halt Datum :=
  match e.failure? with
  | none => .ok v
  | some message => .error (.thrown (.text message))

section Stuck

variable (g : PipelineGraph) (r : Registry) (inputs : List (SlotKey × Datum))
  (callback : Progress.Callback)

/-- Calling the operations of steps one after another, a step is reached that is stuck, in a world
in which its start is reported. -/
inductive GetsStuck : List Nat → List (Nat × Datum) → World → World → Prop where
  /-- The next step is stuck. -/
  | here {i : Nat} {rest : List Nat} {results : List (Nat × Datum)} {w : World} {o : Operation}
    (at' : g.OperationAt r i o) (stuck : g.Stuck r inputs i results) :
    GetsStuck (i :: rest) results w
      (w.report callback o.name 0 (Int64.ofNat (i - 1)) (Int64.ofNat g.pieces))
  /-- The operation of a step succeeds. -/
  | step {i : Nat} {rest : List Nat} {results : List (Nat × Datum)} {w w' reached : World}
    {o : Operation} {arguments : Entries} {d : Datum} (at' : g.OperationAt r i o)
    (called : g.CallArguments Value.reading inputs callback results i o
      (w.report callback o.name 0 (Int64.ofNat (i - 1)) (Int64.ofNat g.pieces)) arguments)
    (succeeds : (o.call arguments).run.run (g.callWorld callback w i o) = (.ok d, w'))
    (others : GetsStuck rest ((i, d) :: results) w' reached) : GetsStuck (i :: rest) results w reached

end Stuck

variable {g : PipelineGraph} {inputs : List (SlotKey × Datum)} {results : List (Nat × Datum)}
  {locals : Entries} {env : Environment}

/-- Results that are known up to a step are known up to the next one, once it has been run. -/
theorem known_succ {i : Nat} {d : Datum}
    (known : ∀ j, 1 ≤ j → j < i → (Keyed.lookup j results).isSome) :
    ∀ j, 1 ≤ j → j < i + 1 → (Keyed.lookup j ((i, d) :: results)).isSome := by
  intro j first before
  rw [Keyed.lookup_cons]
  by_cases same : j = i
  · rw [if_pos same]
    rfl
  · rw [if_neg same]
    exact known j first (by omega)

/-- The statements of steps call the operations of the steps one after another and keep the results,
until an operation fails, whose message is raised, or until they come to a step that is stuck. -/
theorem yields_steps (call : Host.Caller) (before : World) (callback : Progress.Callback)
    (removes failed : Bool) (failure : Datum) (calls : env.Calls) (w : g.Wired env.registry)
    (built : env.registry.Built) (named : g.NamedKeys 0 (inputs.map Prod.fst)) {i count : Nat}
    {blocks : List (List Stmt)}
    (h : ((List.range' i count).map g.keysAt).mapM (g.stepStmts env.registry) = .ok blocks)
    (first : 1 ≤ i) (last : i + count ≤ g.lastStep) (hidden : HoldsOperations locals)
    (known : ∀ j, 1 ≤ j → j < i → (Keyed.lookup j results).isSome) (v : Datum) :
    ∃ locals', HoldsOperations locals' ∧
      ((∃ e after v', g.Executes env.registry Value.reading inputs callback (List.range' i count)
          results before e after ∧
        Yields (evalBlock env call v (separateBlocks blocks))
          (locals ++ g.runScope inputs callback removes results failed failure) before (e.result v')
          (locals' ++ g.runScope inputs callback removes e.results failed failure) after) ∨
      (∃ halt seen results' after,
        g.GetsStuck env.registry inputs callback (List.range' i count) results before after ∧
        halt.caught? = some seen ∧
        Yields (evalBlock env call v (separateBlocks blocks))
          (locals ++ g.runScope inputs callback removes results failed failure) before
          (.error halt) (locals' ++ g.runScope inputs callback removes results' failed failure)
          after)) := by
  induction count generalizing i results locals before v blocks with
  | zero =>
    cases h
    exact ⟨locals, hidden, .inl ⟨_, before, v, .done, .block_nil v⟩⟩
  | succ count ih =>
    rw [List.range'_succ, List.map_cons, List.mapM_cons] at h
    -- generation of all blocks has gone through, so it has for the first one and for the others
    cases e : g.stepStmts env.registry (g.keysAt i) with
    | error fault =>
      simp only [e] at h
      cases h
    | ok block =>
      simp only [e] at h
      cases e' : ((List.range' (i + 1) count).map g.keysAt).mapM (g.stepStmts env.registry) with
      | error fault =>
        simp only [e'] at h
        cases h
      | ok others =>
        simp only [e'] at h
        cases h
        simp only [evalBlock_separateBlocks_cons, List.range'_succ]
        obtain ⟨o, at', -⟩ := w.exists_operationAt first (by omega)
        obtain ⟨locals₁, hidden₁, ⟨arguments, called, succeeds, fails⟩ |
          ⟨stuck, halt, seen, caught, halts⟩⟩ :=
          yields_step call before callback removes failed failure calls w built named at' e hidden
            known v
        -- the induction goes on in the world that the operation leaves, with its result known
        · cases outcome : (o.call arguments).run.run (g.callWorld callback before i o) with
          | mk result after =>
            cases result with
            | ok d =>
              have head := succeeds d after outcome
              obtain ⟨locals', hidden', ⟨ending, after', v', executes, rest⟩ |
                ⟨halt, seen, results', after', stuck, caught, rest⟩⟩ :=
                ih after e' (by omega) (by omega) hidden₁ (known_succ known) .unit
              · exact ⟨locals', hidden', .inl ⟨ending, after', v', .step at' called outcome executes,
                  .block_append head rest⟩⟩
              · exact ⟨locals', hidden', .inr ⟨halt, seen, results', after',
                  .step at' called outcome stuck, caught, .block_append head rest⟩⟩
            | error fault =>
              have head := fails fault after outcome
              exact ⟨locals₁, hidden₁, .inl ⟨_, after, v, .failed at' called outcome,
                .block_append_halt head⟩⟩
        · exact ⟨locals₁, hidden₁, .inr ⟨halt, seen, results, _, .here at' stuck, caught,
            .block_append_halt halts⟩⟩

end PipelineGraph

end Pipewright
