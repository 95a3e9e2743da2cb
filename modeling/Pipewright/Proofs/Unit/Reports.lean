import Pipewright.Proofs.Unit.Adoption
import Pipewright.Proofs.Unit.Visits

/-! # What the callback of a run hears
A run reports its own start, the start of each step and its own end to the callback that it is given.
In between the operations report through callbacks for the pieces that their steps are. Put together,
the progress that the callback hears of goes from zero to one and never back. -/

namespace Pipewright

open Decimal (exactValue)
open Host (functionResult)
open Progress (Ascends Board Callback Move Report)

/-- There is a piece. -/
theorem PipelineGraph.pieces_pos (g : PipelineGraph) : 0 < g.pieces := by
  unfold pieces
  omega

/-- Parts of the whole are in the order of their numbers. -/
theorem PipelineGraph.div_pieces_le (g : PipelineGraph) {x y : ℚ} (le : x ≤ y) :
    x / g.pieces ≤ y / g.pieces :=
  (div_le_div_iff_of_pos_right (by exact_mod_cast g.pieces_pos)).2 le

/-! ## One step -/

namespace Visit

/-- What is done to the board before the operation of a step is called: its start is reported, and if
it is to get a callback that is made. -/
def opening (g : PipelineGraph) (callback : Callback) (v : Visit) : List (Move Float) :=
  .report callback v.operation.name 0 v.piece g.pieces ::
    match v.given? with
    | none => []
    | some _ => [.sub callback v.piece g.pieces]

/-- What an operation itself has reported in exact arithmetic, as its callback hears it. -/
def own (v : Visit) (told : List (Move Float)) : List (Report ℚ) :=
  match v.given? with
  | none => []
  | some given => given.heard (told.map (Move.map exactValue))

/-- What an operation has done to the board while it was called. It has reported through the callback
that it was called with; other callbacks to which it has reported have nothing to do with the one of
the run. The totals that it has reported do not decrease and lie between zero and one. -/
structure Tells (callback : Callback) (v : Visit) (told : List (Move Float)) : Prop where
  /-- The board is left as it is after what the operation has done. -/
  left : v.after = v.before.performAll told
  /-- It has reported through the callback that it was called with. -/
  through : ∀ m ∈ told, m.ReportsTo fun d =>
    (∃ given ∈ v.given?, Callback.Reaches given d) ∨ Callback.Apart callback d
  /-- It has reported numbers through it. -/
  finite : ∀ given ∈ v.given?, ∀ d pieceName fraction piece pieces, Callback.Reaches given d →
    Move.report d pieceName fraction piece pieces ∈ told → Decimal.Finite fraction
  /-- The totals ascend from zero to one. -/
  ascends : Ascends 0 1 (v.own told)

/-- What is reported of a step: its start, and what its operation has reported as progress of the
step's piece. -/
def reports (g : PipelineGraph) (v : Visit) (told : List (Move Float)) : List (Report ℚ) :=
  ⟨v.piece / g.pieces, v.operation.name, v.piece, g.pieces⟩ ::
    (v.own told).map fun ρ => ⟨(v.piece + ρ.total) / g.pieces, ρ.pieceName, v.piece, g.pieces⟩

/-- The callback of a visit is one for the piece of its step. -/
def OfPiece (g : PipelineGraph) (callback : Callback) (v : Visit) : Prop :=
  ∀ given ∈ v.given?, ∃ cell, given = .sub cell callback v.piece g.pieces

variable {g : PipelineGraph} {callback : Callback} {v : Visit} {told : List (Move Float)}

/-- What the callback of a run hears of a step is its start and the progress of its piece. -/
theorem Tells.heard_eq (h : v.Tells callback told) (ofPiece : v.OfPiece g callback) :
    callback.heard ((v.opening g callback ++ told).map (Move.map exactValue)) =
      v.reports g told := by
  have some' := g.pieces_pos
  have start : callback.heard ((v.opening g callback).map (Move.map exactValue)) =
      [⟨v.piece / g.pieces, v.operation.name, v.piece, g.pieces⟩] := by
    have first : Report.of v.operation.name (0 : ℚ) v.piece g.pieces =
        ⟨v.piece / g.pieces, v.operation.name, v.piece, g.pieces⟩ := by
      rw [Report.of_eq some', add_zero]
    unfold opening
    cases v.given? <;> simp [Move.map, Callback.heard, Callback.hearsOf, first]
  have rest : callback.heard (told.map (Move.map exactValue)) = (v.own told).map fun ρ =>
      ⟨(v.piece + ρ.total) / g.pieces, ρ.pieceName, v.piece, g.pieces⟩ := by
    have through := h.through
    unfold own
    cases given : v.given? with
    | none =>
      rw [given] at through
      refine Callback.heard_eq_nil (List.forall_mem_map.2 fun m there => ?_)
      rw [Move.reportsTo_map]
      exact (through m there).imp fun d told => (told.resolve_left (by simp)).unreached
    | some s =>
      obtain ⟨cell, rfl⟩ := ofPiece s given
      rw [given] at through
      rw [Callback.heard_eq_map]
      · refine List.map_congr_left fun ρ _ => ?_
        rw [Report.of_eq some']
      · refine List.forall_mem_map.2 fun m there => ?_
        rw [Move.reportsTo_map]
        refine (through m there).imp fun d told => ?_
        rcases told with ⟨_, e, reached⟩ | apart
        · cases e
          exact .inl reached
        · exact .inr apart.unreached
  rw [List.map_append, Callback.heard_append, start, rest]
  rfl

/-- What is reported of a step stays in the part of the whole that is the step's. -/
theorem Tells.ascends_reports (h : v.Tells callback told) :
    Ascends (v.piece / g.pieces) ((v.piece + 1) / g.pieces) (v.reports g told) :=
  (h.ascends.piece g.pieces_pos v.piece).cons rfl
    (g.div_pieces_le (le_add_of_nonneg_right zero_le_one))

/-- What is reported in a step gets to the callback of the run, or has nothing to do with it. -/
theorem Tells.reportsTo (h : v.Tells callback told) (ofPiece : v.OfPiece g callback) :
    ∀ m ∈ v.opening g callback ++ told,
      m.ReportsTo fun d => Callback.Reaches callback d ∨ Callback.Apart callback d := by
  intro m there
  rcases List.mem_append.1 there with there | there
  · unfold opening at there
    rcases List.mem_cons.1 there with rfl | there
    · exact .inl .refl
    · cases given : v.given? with
      | none =>
        rw [given] at there
        cases there
      | some s =>
        rw [given] at there
        rw [List.mem_singleton.1 there]
        trivial
  · refine (h.through m there).imp fun d told => ?_
    rcases told with ⟨given, e, reached⟩ | apart
    · obtain ⟨cell, rfl⟩ := ofPiece given e
      exact .inl reached.of_sub
    · exact .inr apart

end Visit

/-! ## One step after another -/

namespace PipelineGraph

variable {g : PipelineGraph} {r : Registry} {inputs : List (SlotKey × Datum)} {callback : Callback}
  {steps : List Nat} {results : List (Nat × Datum)} {before w w' : World} {i : Nat}
  {o : Operation} {visits : List Visit} {through closes : Bool} {left : Board Float}
  {told : Visit → List (Move Float)}

/-- The start of a step is reported, as long as a word can count the steps. -/
theorem board_begun (counted : g.pieces < signedBound) (small : i - 1 < signedBound) :
    (g.begun callback w i o).board =
      w.board.report callback o.name 0 ((i - 1 : Nat) : Int) g.pieces := by
  unfold begun World.report
  rw [Int64.toInt_ofNat_of_lt counted, Int64.toInt_ofNat_of_lt small]

/-- The board with which the operation of a step is called. -/
theorem board_callWorld (counted : g.pieces < signedBound) (small : i - 1 < signedBound) :
    (g.callWorld callback w i o).board =
      w.board.performAll ((g.visit callback w i o w').opening g callback) := by
  have start : (w.report callback o.name 0 (Int64.ofNat (i - 1)) (Int64.ofNat g.pieces)).board =
      w.board.report callback o.name 0 ((i - 1 : Nat) : Int) g.pieces := board_begun counted small
  unfold callWorld Visit.opening visit subCallback
  cases o.progress? with
  | none => exact start
  | some name =>
    simp only [start, Option.map_some]
    rw [Int64.toInt_ofNat_of_lt counted, Int64.toInt_ofNat_of_lt small]
    rfl

/-- The callbacks of a tour are for the pieces of their steps. -/
theorem Tour.ofPiece (h : g.Tour r inputs callback steps results before visits through left)
    (counted : g.pieces < signedBound) (small : ∀ i ∈ steps, i - 1 < signedBound) :
    ∀ v ∈ visits, v.OfPiece g callback := by
  have called : ∀ {w i o w'}, i - 1 < signedBound →
      (g.visit callback w i o w').OfPiece g callback := by
    intro w i o w' small given e
    obtain ⟨name, -, rfl⟩ := Option.mem_map.1 e
    refine ⟨(g.begun callback w i o).board.cells.size, ?_⟩
    show Callback.sub _ _ _ _ = _
    rw [Int64.toInt_ofNat_of_lt counted, Int64.toInt_ofNat_of_lt small]
    rfl
  induction h with
  | done => simp
  | step _ _ _ _ ih =>
    obtain ⟨one, others⟩ := List.forall_mem_cons.1 small
    exact List.forall_mem_cons.2 ⟨called one, ih others⟩
  | failed => exact List.forall_mem_singleton.2 (called (small _ List.mem_cons_self))
  | stuck => exact List.forall_mem_singleton.2 fun _ e => nomatch e

/-- What is done to the board in some steps. -/
def stepMoves (g : PipelineGraph) (callback : Callback) (told : Visit → List (Move Float))
    (visits : List Visit) : List (Move Float) :=
  visits.flatMap fun v => v.opening g callback ++ told v

/-- The board that a tour leaves is the one that its operations leave one after another. -/
theorem Tour.left_eq (h : g.Tour r inputs callback steps results before visits through left)
    (counted : g.pieces < signedBound) (small : ∀ i ∈ steps, i - 1 < signedBound)
    (tells : ∀ v ∈ visits, v.after = v.before.performAll (told v)) :
    left = before.board.performAll (g.stepMoves callback told visits) := by
  -- the board behind one visit
  have called : ∀ {w i o w'}, i - 1 < signedBound →
      (g.visit callback w i o w').after = (g.visit callback w i o w').before.performAll
        (told (g.visit callback w i o w')) →
      w'.board = (w.board.performAll ((g.visit callback w i o w').opening g callback)).performAll
        (told (g.visit callback w i o w')) := by
    intro w i o w' small left
    rw [← board_callWorld counted small]
    exact left
  unfold stepMoves
  induction h with
  | done => rfl
  | step _ _ _ _ ih =>
    obtain ⟨one, others⟩ := List.forall_mem_cons.1 small
    obtain ⟨left, lefts⟩ := List.forall_mem_cons.1 tells
    rw [ih others lefts, List.flatMap_cons, Board.performAll_append, Board.performAll_append,
      ← called one left]
  | failed =>
    rw [List.flatMap_singleton, Board.performAll_append]
    exact called (small _ List.mem_cons_self) (tells _ List.mem_cons_self)
  | stuck =>
    rw [List.flatMap_singleton, Board.performAll_append]
    refine (tells _ List.mem_cons_self).trans ?_
    rw [board_begun counted (small _ List.mem_cons_self)]
    rfl

/-- What is done to the board in a run: its start is reported, steps are visited, and its end is
reported if it comes to that. -/
def runMoves (g : PipelineGraph) (callback : Callback) (told : Visit → List (Move Float))
    (visits : List Visit) (closes : Bool) : List (Move Float) :=
  .report callback "" 0 0 g.pieces :: (g.stepMoves callback told visits ++
    if closes then [.report callback "" 0 g.pieces g.pieces] else [])

/-- What the callback of a run hears in exact arithmetic: nothing is done, then step by step that the
step starts and what its operation reports, and at last that all is done, if it comes to that. -/
def runReports (g : PipelineGraph) (told : Visit → List (Move Float)) (visits : List Visit)
    (closes : Bool) : List (Report ℚ) :=
  ⟨0, "", 0, g.pieces⟩ :: ((visits.flatMap fun v => v.reports g (told v)) ++
    if closes then [⟨1, "", g.pieces, g.pieces⟩] else [])

/-- What the callback of a run hears is what the run and its operations report. -/
theorem heard_runMoves (tells : ∀ v ∈ visits, v.Tells callback (told v))
    (ofPiece : ∀ v ∈ visits, v.OfPiece g callback) (closes : Bool) :
    callback.heard ((g.runMoves callback told visits closes).map (Move.map exactValue)) =
      g.runReports told visits closes := by
  have steps : callback.heard ((g.stepMoves callback told visits).map (Move.map exactValue)) =
      visits.flatMap fun v => v.reports g (told v) := by
    unfold stepMoves Callback.heard
    rw [List.map_flatMap, List.filterMap_flatMap]
    exact List.flatMap_congr fun v m => (tells v m).heard_eq (ofPiece v m)
  have some' := g.pieces_pos
  have start : Report.of "" (0 : ℚ) 0 g.pieces = ⟨0, "", 0, g.pieces⟩ := by
    have e := Report.of_eq some' "" 0 0
    simpa using e
  have finish : Report.of "" (0 : ℚ) g.pieces g.pieces = ⟨1, "", g.pieces, g.pieces⟩ := by
    have positive : (g.pieces : ℚ) ≠ 0 := by exact_mod_cast some'.ne'
    rw [Report.of_eq some', add_zero, div_self positive]
  unfold runMoves runReports
  rw [List.map_cons, List.map_append]
  have first : callback.heard [(Move.report callback "" 0 0 g.pieces).map exactValue] =
      [⟨0, "", 0, g.pieces⟩] := by
    simp [Move.map, Callback.heard, Callback.hearsOf, start]
  have last : callback.heard ((if closes = true then [Move.report callback "" (0 : Float) g.pieces
      g.pieces] else []).map (Move.map exactValue)) =
      if closes = true then [⟨1, "", g.pieces, g.pieces⟩] else [] := by
    cases closes <;> simp [Move.map, Callback.heard, Callback.hearsOf, finish]
  rw [← List.singleton_append, Callback.heard_append, Callback.heard_append, first, steps, last]
  rfl

/-- The totals that are reported of steps one after another do not decrease. -/
theorem ascends_steps (tells : ∀ v ∈ visits, v.Tells callback (told v)) {n : Nat}
    (steps : visits.map Visit.step = List.range' (n + 1) visits.length) :
    Ascends (n / g.pieces) ((n + visits.length : Nat) / g.pieces)
      (visits.flatMap fun v => v.reports g (told v)) := by
  have spread : ∀ {m n : Nat}, m ≤ n → (m : ℚ) / g.pieces ≤ n / g.pieces := fun le =>
    g.div_pieces_le (by exact_mod_cast le)
  induction visits generalizing n with
  | nil => exact .nil
  | cons v visits ih =>
    obtain ⟨one, others⟩ := List.forall_mem_cons.1 tells
    rw [List.map_cons, List.length_cons, List.range'_succ] at steps
    obtain ⟨step, rest⟩ := List.cons.inj steps
    have piece : v.piece = n := by
      unfold Visit.piece
      omega
    have head : Ascends (n / g.pieces) ((n + 1 : Nat) / g.pieces) (v.reports g (told v)) := by
      rw [← piece, Nat.cast_add_one]
      exact one.ascends_reports
    have tail := ih others rest
    rw [List.flatMap_cons, List.length_cons, Nat.add_comm visits.length, ← Nat.add_assoc]
    exact head.append tail (spread (by omega)) (spread (by omega))

/-- The totals that a run reports do not decrease and lie between zero and one. -/
theorem ascends_runReports (tells : ∀ v ∈ visits, v.Tells callback (told v))
    (steps : visits.map Visit.step = List.range' 1 visits.length)
    (few : visits.length ≤ g.pieces) : Ascends 0 1 (g.runReports told visits closes) := by
  have positive : (0 : ℚ) < g.pieces := by exact_mod_cast g.pieces_pos
  have inner := ascends_steps (g := g) (n := 0) tells steps
  rw [Nat.cast_zero, zero_div, Nat.zero_add] at inner
  have below : (visits.length : ℚ) / g.pieces ≤ 1 :=
    (div_le_one positive).2 (by exact_mod_cast few)
  have last : Ascends 1 1 (if closes then [⟨1, "", g.pieces, g.pieces⟩] else []) := by
    cases closes
    · exact .nil
    · exact .cons rfl .nil (le_refl _)
  exact .cons rfl ((inner.mono (le_refl _) below).append last zero_le_one (le_refl _)) zero_le_one

/-- What gets to the callback of a run, or has nothing to do with it. -/
theorem reportsTo_runMoves (tells : ∀ v ∈ visits, v.Tells callback (told v))
    (ofPiece : ∀ v ∈ visits, v.OfPiece g callback) (closes : Bool) :
    ∀ m ∈ g.runMoves callback told visits closes,
      m.ReportsTo fun d => Callback.Reaches callback d ∨ Callback.Apart callback d := by
  intro m there
  unfold runMoves at there
  rcases List.mem_cons.1 there with rfl | there
  · exact .inl .refl
  rcases List.mem_append.1 there with there | there
  · obtain ⟨v, visited, there⟩ := List.mem_flatMap.1 there
    exact (tells v visited).reportsTo (ofPiece v visited) m there
  · cases closes with
    | false => cases there
    | true =>
      rw [List.mem_singleton.1 there]
      exact .inl .refl

/-! ## Runs of a unit -/

/-- The steps that a run visits: one after another from the first one on, each with its own
operation, until all are visited, or until one has failed or could not be run. -/
structure Visited (g : PipelineGraph) (r : Registry) (inputs : List (SlotKey × Datum))
    (callback : Callback) (started : World) (visits : List Visit) (through : Bool) : Prop where
  /-- Each operation is called with what the slots of its step carry, in the world that the one
  before has left. -/
  tour : ∃ left,
    g.Tour r inputs callback (List.range' 1 g.innerSteps.length) [] started visits through left
  /-- The visits are of the steps in order. -/
  steps : visits.map Visit.step = List.range' 1 visits.length
  /-- The operations are those of the steps. -/
  operations : ∀ v ∈ visits, g.OperationAt r v.step v.operation
  /-- There are no more visits than steps. -/
  few : visits.length ≤ g.innerSteps.length
  /-- If no step has failed, all are visited. -/
  all : through = true → visits.length = g.innerSteps.length
  /-- Otherwise the one that has is the last one visited. -/
  stopped : through = false → 0 < visits.length

/-- A tour visits the steps one after another. -/
theorem Tour.visited {started : World}
    (h : g.Tour r inputs callback (List.range' 1 g.innerSteps.length) [] started visits through
      left) : g.Visited r inputs callback started visits through := by
  obtain ⟨few, ends⟩ := h.length_eq
  rw [List.length_range'] at few ends
  have steps := h.steps_eq
  exact
    { tour := ⟨left, h⟩
      steps := steps.trans (List.take_range'_of_length_ge few)
      operations := h.operationAt
      few := few
      all := fun e => by rwa [if_pos e] at ends
      stopped := fun e => by rwa [if_neg (by simp [e])] at ends }

/-- What callbacks have seen of a run, and what the callback of the run has heard. Its totals do not
decrease and lie between zero and one, those of a step within the part of the whole that is the
step's. -/
structure Hears (g : PipelineGraph) (callback : Callback) (before after : Board Float)
    (told : Visit → List (Move Float)) (visits : List Visit) (closes : Bool) : Prop where
  /-- Nothing else was done to the board. -/
  left : after = before.performAll (g.runMoves callback told visits closes)
  /-- If somebody takes the reports of the callback, they are what it hears. -/
  received : ∀ cell o waiting, callback = .plain cell (some o) →
    before.outlets[o]? = some ⟨true, waiting⟩ → after.outlets[o]? =
      some ⟨true, waiting ++ callback.heard (g.runMoves callback told visits closes)⟩
  /-- In exact arithmetic it hears of the start, of the steps one after another, and of the end. -/
  heard : callback.heard ((g.runMoves callback told visits closes).map (Move.map exactValue)) =
    g.runReports told visits closes
  /-- The totals do not decrease and lie between zero and one. -/
  ascends : Ascends 0 1 (g.runReports told visits closes)
  /-- The totals of a step lie within its part. -/
  parts : ∀ v ∈ visits,
    Ascends (v.piece / g.pieces) ((v.piece + 1) / g.pieces) (v.reports g (told v))

/-- Where a tour leaves the board to the end of a run, the callback hears what is reported. -/
theorem Tour.hears {w started : World} {after : Board Float}
    (h : g.Tour r inputs callback (List.range' 1 g.innerSteps.length) [] started visits through
      left) (counted : g.pieces < signedBound)
    (start : started = w.report callback "" 0 0 (Int64.ofNat g.pieces))
    (finish : after = if closes then left.report callback "" 0 g.pieces g.pieces else left)
    (tells : ∀ v ∈ visits, v.Tells callback (told v)) :
    g.Hears callback w.board after told visits closes := by
  have visited := h.visited
  have many : g.innerSteps.length ≤ g.pieces := Nat.le_max_left _ _
  have small : ∀ i ∈ List.range' 1 g.innerSteps.length, i - 1 < signedBound := by
    intro i m
    rw [List.mem_range'_1] at m
    omega
  have ofPiece := h.ofPiece counted small
  have started' : started.board = w.board.report callback "" 0 0 g.pieces := by
    rw [start, World.report, Int64.toInt_ofNat_of_lt counted]
    rfl
  have moved : after = w.board.performAll (g.runMoves callback told visits closes) := by
    unfold runMoves
    rw [Board.performAll_cons, Board.performAll_append, finish,
      h.left_eq counted small fun v m => (tells v m).left, started']
    cases closes <;> rfl
  exact
    { left := moved
      received := by
        rintro cell o waiting rfl there
        rw [moved]
        exact Board.outlets_performAll there (reportsTo_runMoves tells ofPiece closes)
      heard := heard_runMoves tells ofPiece closes
      ascends := ascends_runReports tells visited.steps (visited.few.trans many)
      parts := fun v m => (tells v m).ascends_reports }

/-- However a run ends, it has made a tour, and behind that has reported its end at most: that it has
if it succeeds, and only if no step has failed. -/
theorem exists_tour_of_finishes {removes : Bool} {managed returned : List Access}
    {started after : World} {ending : Except Host.Halt Datum}
    (h : g.Finishes r inputs callback removes managed returned started ending after)
    (counted : g.pieces < signedBound) :
    ∃ visits through closes left,
      g.Tour r inputs callback (List.range' 1 (g.lastStep - 1)) [] started visits through left ∧
      ((Host.result (functionResult ending)).isOk = true → closes = true) ∧
      (closes = true → through = true) ∧
      after.board = if closes then left.report callback "" 0 g.pieces g.pieces else left := by
  have close : ∀ w : World, (w.report callback "" 0 (Int64.ofNat g.pieces)
      (Int64.ofNat g.pieces)).board = w.board.report callback "" 0 g.pieces g.pieces := by
    intro w
    rw [World.report, Int64.toInt_ofNat_of_lt counted]
  cases h with
  | @returned e last d completes through =>
    obtain ⟨visits, tour⟩ := Executes.exists_tour completes
    refine ⟨visits, _, true, _, tour, fun _ => rfl, fun _ => by rw [through]; rfl, ?_⟩
    rw [close, board_cleaned, if_pos rfl]
  | @raised e last message completes failure =>
    obtain ⟨visits, tour⟩ := Executes.exists_tour completes
    refine ⟨visits, _, false, _, tour, fun ok => absurd ok Bool.false_ne_true,
      fun e => absurd e Bool.false_ne_true, ?_⟩
    rw [board_cleaned, if_neg Bool.false_ne_true]
  | strayed completes stray heard =>
    obtain ⟨visits, tour⟩ := Executes.exists_tour completes
    exact ⟨visits, _, false, _, tour, fun ok => absurd ok Bool.false_ne_true,
      fun e => absurd e Bool.false_ne_true, heard⟩
  | stuck stuck heard =>
    obtain ⟨visits, tour⟩ := GetsStuck.exists_tour stuck
    exact ⟨visits, _, false, _, tour, fun ok => absurd ok Bool.false_ne_true,
      fun e => absurd e Bool.false_ne_true, heard⟩
  | @missed e last w halt seen completes through nothing caught heard =>
    obtain ⟨visits, tour⟩ := Executes.exists_tour completes
    refine ⟨visits, _, true, _, tour, fun _ => rfl, fun _ => by rw [through]; rfl, ?_⟩
    rw [heard, close, if_pos rfl]

/-- The callback of a run of a unit that was generated from a validated pipeline, with settings that
can be used, whatever comes of the run, hears first that nothing is done, then of each step that the
run comes to that it starts and what its operation reports, and last, if the run succeeds, that all is
done. Operations have to report only through the callbacks that they are called with, in totals
between zero and one that do not decrease. No limit of the host is reached, and a word can count the
steps, as it can count what any machine holds. -/
theorem Compiled.exists_hears_of_runIn {h : Host} {p : ValidatedPipeline} {s : Settings}
    {u : LoadedUnit} (c : g.Compiled h.registry s p u)
    (ordered : p.graph.orderedInputs = .ok (inputs.map Prod.fst)) (mode : RunMode)
    (within : h.Within u u.runFunction (inputs.map Prod.snd ++ mode.arguments))
    (counted : p.graph.pieces < signedBound) :
    ∃ visits through closes,
      p.graph.Visited h.registry inputs (mode.start h.world).1
        ((mode.start h.world).2.report (mode.start h.world).1 "" 0 0 (Int64.ofNat p.graph.pieces))
        visits through ∧
      ((h.runIn u (inputs.map Prod.snd) mode).1.isOk = true → closes = true) ∧
      (closes = true → through = true) ∧
      ∀ told, (∀ v ∈ visits, v.Tells (mode.start h.world).1 (told v)) →
        p.graph.Hears (mode.start h.world).1 (mode.start h.world).2.board
          (h.runIn u (inputs.map Prod.snd) mode).2.world.board told visits closes := by
  have w := c.wired
  obtain ⟨name, hasIcon, pieces, made, holds⟩ := c.exists_holds h.classes
  obtain ⟨-, parameters, run, widget, -, second, -, rfl⟩ := exists_unitPieces made
  obtain ⟨keys, outputs, steps, returned, places, parts⟩ := exists_runParts second
  cases ordered.symm.trans parts.ordered
  have m : run ∈ [metadataPiece name p h.registry s hasIcon, parameters, run, widget] := by simp
  obtain ⟨ending, after, ran, finishes⟩ := c.exists_finishes holds m parts mode
  obtain ⟨visits, through, closes, left, tour, closed, all, board⟩ :=
    exists_tour_of_finishes finishes counted
  have count : p.graph.lastStep - 1 = p.graph.innerSteps.length := by
    rw [w.innerSteps_eq, List.length_map, List.length_range']
  rw [count] at tour
  rw [Host.runIn_eq, Host.call_eq ran within]
  refine ⟨visits, through, closes, tour.visited, fun ok => closed ?_, all, fun told tells =>
    tour.hears counted rfl board tells⟩
  cases e : Host.result (functionResult ending) with
  | ok d => rfl
  | error fault =>
    rw [e] at ok
    cases ok

/-! ## A run that is half done in between -/

/-- An operation that reports when it is half done. -/
def weighing : Registration where
  name := "weigh"
  signature := ⟨[("progress", some .progress)], some .int⟩
  dependencies := []
  categories := []
  implementation c := Recipe.follow c (.sequence [.report "half" 0.5 0 1, .const (.int 1)])

/-- The registry with this operation and one that reports nothing. -/
def weights : Registry :=
  ⟨[("ball", ⟨"ball", [], .node ball, none, [], [], balling.implementation⟩),
    ("weigh", ⟨"weigh", [], .int, some "progress", [], [], weighing.implementation⟩)]⟩

/-- One step that reports, and another one that does not. -/
def weighedOnce : PipelineGraph :=
  ((((empty.addInput "n" .int 0).addReturn 1 "weigh").addReturn 2 "ball").addOutput 3 "out" .int
    0).addEdge (.returnValue 1 "weigh") (.output 3 "out")

/-- The pipeline of these steps, validated. -/
def weighed : ValidatedPipeline := (weighedOnce.validate weights).toOption.getD ⟨empty⟩

/-- The pieces of its unit. -/
def weighedPieces : List Piece :=
  (unitPieces "weighing" weighed weights .standard false).toOption.getD []

/-- Its unit. -/
def weighedUnit (text : String) : LoadedUnit :=
  unitOf "weighing" text Settings.standard.runFunction [.operations, .progress, .scene] weighedPieces

/-- The pipeline is compiled. -/
theorem exists_compiled_weighed :
    ∃ text, weighedOnce.Compiled weights .standard weighed (weighedUnit text) := by
  have built : weighedOnce.Built := by
    unfold weighedOnce addOutput addReturn addInput
    exact ⟨.addEdge _ _ (.addNode _ _ (.addNode _ _ (.addNode _ _ (.addNode _ _ .empty)))),
      by decide +kernel⟩
  have registered : weights.Built := .register weighing (.register balling .empty rfl) rfl
  have valid : weighedOnce.validate weights = .ok weighed := eq_ok_of_isOk (by decide +kernel) _
  have made : unitPieces "weighing" weighed weights .standard false = .ok weighedPieces :=
    eq_ok_of_isOk (by decide +kernel) _
  have lines : weighed.graph.Lines weights := .of_all (by decide +kernel) (by decide +kernel)
  exact exists_compiled built registered valid Settings.usable_standard lines made
    (eq_ok_of_isOk (by decide +kernel) []) (eq_ok_of_isOk (by decide +kernel) []) (by decide +kernel)
    (by decide +kernel) (by decide +kernel)

/-- A host in which somebody takes the reports of a callback. -/
def weighingHost : Host :=
  { Host.new weights [] with world := { World.empty with board := Board.empty.addOutlet.2 } }

/-- What the operation that reports does to the board with the callback that it is called with. -/
def halfTold (v : Visit) : List (Move Float) :=
  match v.given? with
  | none => []
  | some given => [.report given "half" 0.5 0 1]

/-- The recipe reports to the callback of the call. -/
theorem follow_half (c : OperationCall) {given : Callback} (w : World)
    (h : c.progress? = some given) :
    (Recipe.follow c (.sequence [.report "half" 0.5 0 1, .const (.int 1)])).run.run w =
      (.ok (.int 1), w.report given "half" 0.5 0 1) := by
  obtain ⟨_, _, _⟩ := c
  cases h
  rfl

/-- One operation reports that it is half done, the other one reports nothing. -/
theorem tells_halfTold {callback : Callback} {started : World} {visits : List Visit}
    {through : Bool}
    (h : weighed.graph.Visited weights [(.input "n", .int 5)] callback started visits through) :
    ∀ v ∈ visits, v.Tells callback (halfTold v) := by
  intro v m
  -- the board that the visit leaves
  have left : v.after = v.before.performAll (halfTold v) := by
    obtain ⟨_, tour⟩ := h.tour
    rcases tour.exists_call v m with
      ⟨w, i, o, w', arguments, results, result, ⟨_, _, _, operation, _, found⟩, called, comes, rfl⟩ |
      ⟨none, same⟩
    · have m : (operation, o) ∈ weights.operations := Keyed.mem_of_lookup found
      simp only [weights, List.mem_cons, List.not_mem_nil, or_false] at m
      rcases m with e | e <;> cases e
      · exact (congrArg (fun out => out.2.board) comes).symm
      · let o := (weights.operation? "weigh").get rfl
        have known : (o.callWith arguments).progress? = some
            (weighed.graph.subCallback (weighed.graph.begun callback w i o) callback i).1 := by
          have given := called.progress "progress" rfl
          show (Keyed.lookup "progress" arguments).bind Datum.progress? = _
          rw [given]
          rfl
        have reported := (follow_half _ _ known).symm.trans comes
        exact (congrArg (fun out => out.2.board) reported).symm
    · unfold halfTold
      rw [none, same]
      rfl
  have total : Report.of "half" (exactValue 0.5) 0 1 = ⟨1 / 2, "half", 0, 1⟩ := by
    have half : exactValue 0.5 = 1 / 2 := by decide +kernel
    rw [half]
    simpa using Report.of_eq Nat.one_pos "half" (1 / 2) 0
  unfold halfTold at left ⊢
  cases given : v.given? with
  | none =>
    rw [given] at left
    exact ⟨left, by simp, by simp, by simp [Visit.own, given, Ascends.nil]⟩
  | some s =>
    rw [given] at left
    refine ⟨left, ?_, ?_, ?_⟩
    · exact List.forall_mem_singleton.2 (.inl ⟨s, given, .refl⟩)
    · intro _ _ d pieceName fraction piece pieces _ m
      cases List.mem_singleton.1 m
      exact ⟨by decide +kernel, by decide +kernel⟩
    · have own : v.own [.report s "half" 0.5 0 1] = [⟨1 / 2, "half", 0, 1⟩] := by
        simp [Visit.own, given, Callback.heard, Callback.hearsOf, Move.map, total]
      rw [own]
      exact ⟨by simp; norm_num, List.pairwise_singleton _ _⟩

/-- The run with the callback of the host. -/
def weighedRun (u : LoadedUnit) : Except Failure Datum × Host :=
  weighingHost.runIn u [.int 5] (.reporting (.plain 0 (some 0)))

/-- The callback hears of the run, of its two steps and that the first one is half done in between. -/
theorem exists_hears_of_runIn_weighed : ∃ u visits,
    weighedOnce.Compiled weights .standard weighed u ∧ (weighedRun u).1.isOk = true ∧
      visits.length = 2 ∧ (∀ v ∈ visits, v.Tells (.plain 0 (some 0)) (halfTold v)) ∧
      weighed.graph.Hears (.plain 0 (some 0)) weighingHost.world.board (weighedRun u).2.world.board
        halfTold visits true ∧
      ((weighedRun u).2.world.board.outlets.toList.flatMap fun o => o.waiting.map Report.pieceName) =
        ["", "weigh", "half", "ball", ""] := by
  obtain ⟨text, c⟩ := exists_compiled_weighed
  -- the text of a unit has no part in its runs
  have same : weighedRun (weighedUnit text) = weighedRun (weighedUnit "") := rfl
  have ran : (weighedRun (weighedUnit text)).1.isOk = true ∧
      ((weighedRun (weighedUnit text)).2.world.board.outlets.toList.flatMap fun o =>
        o.waiting.map Report.pieceName) = ["", "weigh", "half", "ball", ""] := by
    rw [same]
    decide +kernel
  obtain ⟨ok, names⟩ := ran
  have within : weighingHost.Within (weighedUnit text) (weighedUnit text).runFunction
      [.int 5, .progress (.plain 0 (some 0))] := Host.within_of_isOk ok
  have ordered : weighed.graph.orderedInputs = .ok [.input "n"] :=
    (eq_ok_of_isOk (by decide +kernel) []).trans (congrArg _ (by decide +kernel))
  obtain ⟨visits, through, closes, visited, closed, all, hears⟩ :=
    @Compiled.exists_hears_of_runIn weighedOnce [(.input "n", .int 5)] weighingHost weighed .standard
      (weighedUnit text) c ordered (.reporting (.plain 0 (some 0))) within (by decide +kernel)
  have tells := tells_halfTold visited
  cases closed ok
  refine ⟨weighedUnit text, visits, c, ok, ?_, tells, hears halfTold tells, names⟩
  rw [visited.all (all rfl)]
  decide +kernel

end PipelineGraph

end Pipewright
