import Pipewright.Proofs.Unit.Body

/-! # What a piece that runs a pipeline is made of
The parts that are put together when a piece is generated, and what can keep it from being
generated. -/

namespace Pipewright

open Script (Expr Function Stmt)

namespace PipelineGraph

variable {g : PipelineGraph} {r : Registry} {name : String} {s : Settings}

/-- The parts of a piece that runs a pipeline. -/
structure RunParts (g : PipelineGraph) (r : Registry) (name : String) (s : Settings) (piece : Piece)
    (inputs outputs : List SlotKey) (steps : List Stmt) (returned : List Binding)
    (places : List Access) : Prop where
  /-- There are a first and a last step. -/
  several : 2 ≤ g.groups.length
  /-- The overall inputs are in the order of their positions. -/
  ordered : g.orderedInputs = .ok inputs
  /-- The overall outputs are in the order of their positions. -/
  ordered' : g.orderedOutputs = .ok outputs
  /-- Overall inputs and outputs have names that may be used. -/
  named : boundaryFault? g = none
  /-- The statements are those of the inner steps. -/
  generated : g.innerStmts r = .ok steps
  /-- What is returned is what the outputs are bound to. -/
  bound : outputs.mapM g.binding = .ok returned
  /-- Nodes are removed from the managed places. -/
  managed : g.managed r = .ok places
  /-- The functions are the helpers, the one that makes a map of several outputs, and those that run
  the pipeline. -/
  functions : piece.functions = memberFunction :: referencedFunction ::
    ((if 1 < returned.length then [outputsFunction (name ++ "Outputs") outputs] else []) ++
      runFunctions s.runFunction (inputs.map SlotKey.slot)
        (runBody g steps (g.cleanupStmts places (returned.filterMap Binding.access?) inputs)
          (resultExpr (name ++ "Outputs") returned)))

/-- Items that are functions are the functions of a piece. -/
theorem filterMap_function? (fs : List Function) :
    (fs.map Item.function).filterMap Item.function? = fs := by
  rw [List.filterMap_map]
  exact List.filterMap_some

/-- A piece that is generated has its parts. -/
theorem exists_runParts {piece : Piece} (h : runPiece name ⟨g⟩ r s = .ok piece) :
    ∃ inputs outputs steps returned places,
      g.RunParts r name s piece inputs outputs steps returned places := by
  unfold runPiece at h
  simp only [bind, Except.bind, pure, Except.pure] at h
  split at h
  · cases h
  next several =>
  cases ordered : g.orderedInputs with
  | error fault =>
    rw [ordered] at h
    cases h
  | ok inputs =>
  cases ordered' : g.orderedOutputs with
  | error fault =>
    rw [ordered, ordered'] at h
    cases h
  | ok outputs =>
  cases named : boundaryFault? g with
  | some fault =>
    rw [ordered, ordered', named] at h
    cases h
  | none =>
  cases generated : g.innerStmts r with
  | error fault =>
    rw [ordered, ordered', named, generated] at h
    cases h
  | ok steps =>
  cases bound : outputs.mapM g.binding with
  | error fault =>
    simp only [ordered, ordered', named, generated, bound] at h
    cases h
  | ok returned =>
  cases managed : g.managed r with
  | error fault =>
    simp only [ordered, ordered', named, generated, bound, managed] at h
    cases h
  | ok places =>
    simp only [ordered, ordered', named, generated, bound, managed] at h
    refine ⟨inputs, outputs, steps, returned, places, by omega, ordered, ordered', named, generated,
      bound, managed, ?_⟩
    rw [← Except.ok.inj h]
    unfold Piece.functions
    simp only [runFunctions, List.filterMap_append, List.filterMap_cons, Item.function?]
    -- the constructor is there or not, the rest is the same
    rw [filterMap_function?]
    split <;> rfl

end PipelineGraph

end Pipewright
