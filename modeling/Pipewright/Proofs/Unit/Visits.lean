import Pipewright.Proofs.Progress.Exact
import Pipewright.Proofs.Progress.Heard
import Pipewright.Proofs.Unit.Finish

/-! # The steps that a run comes to
A run calls the operations of the steps one after another, until one fails or cannot be called. What
an operation has told is known from the board that it was called with and the board that it left. -/

namespace Pipewright

open Progress (Board Callback Move Report)

/-- A step that a run has come to. -/
structure Visit where
  /-- The number of the step. -/
  step : Nat
  /-- The operation of the step. -/
  operation : Operation
  /-- The callback that the operation was called with, if it was called with one. -/
  given? : Option Callback
  /-- What callbacks have seen when the operation is called. -/
  before : Board Float
  /-- What they have seen in the end. -/
  after : Board Float

/-- The number of the piece that is the step's, from zero up. -/
def Visit.piece (v : Visit) : Nat := v.step - 1

namespace PipelineGraph

section Tour

variable (g : PipelineGraph) (r : Registry) (inputs : List (SlotKey × Datum)) (callback : Callback)

/-- The world in which the start of a step is reported. -/
def begun (w : World) (i : Nat) (o : Operation) : World :=
  w.report callback o.name 0 (Int64.ofNat (i - 1)) (Int64.ofNat g.pieces)

/-- The visit of a step whose operation is called, which leaves another world. -/
def visit (w : World) (i : Nat) (o : Operation) (w' : World) : Visit :=
  ⟨i, o, o.progress?.map fun _ => (g.subCallback (g.begun callback w i o) callback i).1,
    (g.callWorld callback w i o).board, w'.board⟩

/-- The visits of steps one after another: whether the operation of each of them has succeeded, and
what callbacks have seen in the end. -/
inductive Tour : List Nat → List (Nat × Datum) → World → List Visit → Bool → Board Float → Prop where
  /-- There are no more steps. -/
  | done {results : List (Nat × Datum)} {w : World} : Tour [] results w [] true w.board
  /-- The operation of a step succeeds. -/
  | step {i : Nat} {rest : List Nat} {results : List (Nat × Datum)} {w w' : World} {o : Operation}
    {arguments : Entries} {d : Datum} {visits : List Visit} {through : Bool} {left : Board Float}
    (at' : g.OperationAt r i o)
    (called : g.CallArguments Value.reading inputs callback results i o (g.begun callback w i o)
      arguments)
    (succeeds : (o.call arguments).run.run (g.callWorld callback w i o) = (.ok d, w'))
    (others : Tour rest ((i, d) :: results) w' visits through left) :
    Tour (i :: rest) results w (g.visit callback w i o w' :: visits) through left
  /-- The operation of a step fails. -/
  | failed {i : Nat} {rest : List Nat} {results : List (Nat × Datum)} {w w' : World} {o : Operation}
    {arguments : Entries} {e : OperationError} (at' : g.OperationAt r i o)
    (called : g.CallArguments Value.reading inputs callback results i o (g.begun callback w i o)
      arguments)
    (fails : (o.call arguments).run.run (g.callWorld callback w i o) = (.error e, w')) :
    Tour (i :: rest) results w [g.visit callback w i o w'] false w'.board
  /-- The operation of a step cannot be called, because a parameter carries no value. -/
  | stuck {i : Nat} {rest : List Nat} {results : List (Nat × Datum)} {w : World} {o : Operation}
    (at' : g.OperationAt r i o) (stuck : g.Stuck r inputs i results) :
    Tour (i :: rest) results w
      [⟨i, o, none, (g.begun callback w i o).board, (g.begun callback w i o).board⟩] false
      (g.begun callback w i o).board

end Tour

variable {g : PipelineGraph} {r : Registry} {inputs : List (SlotKey × Datum)} {callback : Callback}
  {steps : List Nat} {results : List (Nat × Datum)} {before after reached : World} {e : Ending}
  {visits : List Visit} {through : Bool} {left : Board Float}

/-- Operations that are called one after another make a tour, which is through if none has failed. -/
theorem Executes.exists_tour
    (h : g.Executes r Value.reading inputs callback steps results before e after) :
    ∃ visits, g.Tour r inputs callback steps results before visits e.failure?.isNone after.board := by
  induction h with
  | done => exact ⟨[], .done⟩
  | step at' called succeeds _ ih =>
    obtain ⟨visits, tour⟩ := ih
    exact ⟨_, .step at' called succeeds tour⟩
  | failed at' called fails => exact ⟨_, .failed at' called fails⟩

/-- Operations that are called one after another until a step is stuck make a tour that is not
through. -/
theorem GetsStuck.exists_tour
    (h : g.GetsStuck r inputs callback steps results before reached) :
    ∃ visits, g.Tour r inputs callback steps results before visits false reached.board := by
  induction h with
  | here at' stuck => exact ⟨_, .stuck at' stuck⟩
  | step at' called succeeds _ ih =>
    obtain ⟨visits, tour⟩ := ih
    exact ⟨_, .step at' called succeeds tour⟩

namespace Tour

/-- The visits are of the steps in order. -/
theorem steps_eq (h : g.Tour r inputs callback steps results before visits through left) :
    visits.map Visit.step = steps.take visits.length := by
  induction h with
  | done => rfl
  | step _ _ _ _ ih =>
    rw [List.map_cons, List.length_cons, List.take_succ_cons, ih]
    rfl
  | failed => simp [visit]
  | stuck => simp

/-- All steps are visited, or a first one at which the tour has come to its end. -/
theorem length_eq (h : g.Tour r inputs callback steps results before visits through left) :
    visits.length ≤ steps.length ∧
      if through then visits.length = steps.length else 0 < visits.length := by
  induction h with
  | done => simp
  | @step _ _ _ _ _ _ _ _ _ through _ _ _ _ _ ih =>
    cases through <;> simp_all
  | failed => simp
  | stuck => simp

/-- The operations are those of the steps. -/
theorem operationAt (h : g.Tour r inputs callback steps results before visits through left) :
    ∀ v ∈ visits, g.OperationAt r v.step v.operation := by
  induction h with
  | done => simp
  | step at' _ _ _ ih => exact List.forall_mem_cons.2 ⟨at', ih⟩
  | failed at' => simpa [visit] using at'
  | stuck at' => simpa using at'

/-- At each visit an operation is called with what the slots of its step carry and with a callback if
it takes one, or nothing is called and nothing is told. -/
theorem exists_call (h : g.Tour r inputs callback steps results before visits through left) :
    ∀ v ∈ visits,
      (∃ w i o w' arguments results result, g.OperationAt r i o ∧
        g.CallArguments Value.reading inputs callback results i o (g.begun callback w i o) arguments ∧
        (o.call arguments).run.run (g.callWorld callback w i o) = (result, w') ∧
        v = g.visit callback w i o w') ∨
      (v.given? = none ∧ v.after = v.before) := by
  induction h with
  | done => simp
  | step at' called succeeds _ ih =>
    exact List.forall_mem_cons.2 ⟨.inl ⟨_, _, _, _, _, _, _, at', called, succeeds, rfl⟩, ih⟩
  | failed at' called fails =>
    exact List.forall_mem_singleton.2 (.inl ⟨_, _, _, _, _, _, _, at', called, fails, rfl⟩)
  | stuck => exact List.forall_mem_singleton.2 (.inr ⟨rfl, rfl⟩)

end Tour

end PipelineGraph

end Pipewright
