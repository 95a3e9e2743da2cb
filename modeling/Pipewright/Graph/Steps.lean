import Pipewright.Graph.Basic

/-! # The steps of a pipeline graph
A graph seen step by step: the keys of each step, apart into parameters and return values, and the
order of overall inputs and outputs by their positions. -/

namespace Pipewright

/-- Positions are in use at a step, but are not `0`, `1`, … without gap or repeat. -/
structure PositionFault where
  /-- The step at fault. -/
  step : Nat
  /-- The positions of its parameters, ascending, missing ones last. -/
  found : List (Option Nat)
deriving DecidableEq, Repr

/-- The text of a fault. -/
def PositionFault.message (fault : PositionFault) : String :=
  let position (p : Option Nat) : String :=
    p.elim "None" fun n => "Some(" ++ toString n ++ ")"
  "Step " ++ toString fault.step ++ " expects positions 0..n on its inputs/outputs, found [" ++
    ", ".intercalate (fault.found.map position) ++ "]"

namespace PipelineGraph

/-- The keys of each step that has any, in ascending order. -/
def groups (g : PipelineGraph) : List (List SlotKey) :=
  g.keys.splitBy fun a b => a.step == b.step

/-- The highest step and one more; zero for a graph without nodes. Steps are words, of which the last
one is followed by zero. -/
def numSteps (g : PipelineGraph) : Nat :=
  g.keys.foldl (fun n key => max n ((key.step + 1) % wordCount)) 0

/-- The parameters among some keys, and the return values, each in their order. -/
def splitReturns (keys : List SlotKey) : List SlotKey × List SlotKey :=
  keys.partition fun key => !key.isReturn

/-- The keys of a step. -/
def keysAt (g : PipelineGraph) (step : Nat) : List SlotKey :=
  g.keys.filter fun key => key.step == step

/-- A missing position sorts behind every other. -/
def positionRank (g : PipelineGraph) (key : SlotKey) : Nat := (g.position? key).getD (wordCount - 1)

/-- Put keys in the order of their positions, if the first of them has one. Then the positions must
count up from zero. -/
def orderByPosition (g : PipelineGraph) (step : Nat) (keys : List SlotKey) :
    Except PositionFault (List SlotKey) :=
  match keys with
  | [] => .ok []
  | first :: rest =>
    if (g.position? first).isSome then
      let sorted := (first :: rest).mergeSort fun a b => g.positionRank a ≤ g.positionRank b
      let found := sorted.map g.position?
      if found = (List.range found.length).map some then .ok sorted
      else .error ⟨step, found⟩
    else .ok (first :: rest)

/-- The parameters and the return values of a step, the parameters in the order of their
positions. -/
def stepSlots (g : PipelineGraph) (step : Nat) :
    Except PositionFault (List SlotKey × List SlotKey) := do
  let (parameters, returns) := splitReturns (g.keysAt step)
  return (← g.orderByPosition step parameters, returns)

/-- The step that an index means: one below zero counts from the end, in signed words. An index before
the first step means none. -/
def resolveStep? (g : PipelineGraph) (index : Int) : Option Nat :=
  if index < 0 then
    let resolved := ((g.numSteps : Int) + index).bmod wordCount
    if resolved < 0 then none else some resolved.toNat
  else some index.toNat

/-- The parameters and the return values of the step that an index means; none for an index before
the first step. -/
def slotsAt (g : PipelineGraph) (index : Int) :
    Except PositionFault (List SlotKey × List SlotKey) :=
  match g.resolveStep? index with
  | some step => g.stepSlots step
  | none => .ok ([], [])

/-- The overall inputs in the order of their positions. -/
def inputs (g : PipelineGraph) : Except PositionFault (List SlotKey) :=
  (g.slotsAt 0).map Prod.fst

/-- The overall outputs in the order of their positions. -/
def outputs (g : PipelineGraph) : Except PositionFault (List SlotKey) :=
  (g.slotsAt (-1)).map Prod.fst

end PipelineGraph

end Pipewright
