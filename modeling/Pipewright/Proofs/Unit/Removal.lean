import Pipewright.Proofs.Unit.Protection

/-! # What a run removes
A run that succeeds removes what its steps have returned and nothing protects, and nothing else. Which
nodes there are is told by the scene of the last step, which is sound if no operation of the run
leaves scenes in disorder. -/

namespace Pipewright

open Script (Function)

namespace PipelineGraph

variable {g : PipelineGraph} {r : Registry} {read : Value → Option Datum}
  {inputs : List (SlotKey × Datum)} {callback : Progress.Callback}

/-! ## Scenes of runs -/

/-- Reports leave the nodes alone that the operation of a step starts with. -/
theorem scene_callWorld (w : World) (i : Nat) (o : Operation) :
    (g.callWorld callback w i o).scene = w.scene := by
  unfold callWorld
  cases o.progress? <;> rfl

/-- One operation after another leaves scenes sound, if each of them does. -/
theorem Executes.sound {steps : List Nat} {results : List (Nat × Datum)} {before after : World}
    {e : Ending} (keeps : ∀ i o, g.OperationAt r i o → o.KeepsScenes)
    (h : g.Executes r read inputs callback steps results before e after)
    (sound : before.scene.Sound) : after.scene.Sound := by
  -- the world behind one call
  have called : ∀ {i o w w' arguments result}, g.OperationAt r i o → w.scene.Sound →
      (o.call arguments).run.run (g.callWorld callback w i o) = (result, w') → w'.scene.Sound := by
    intro i o w w' arguments result at' sound outcome
    have kept := (keeps i o at').call arguments (g.callWorld callback w i o)
      (by rwa [scene_callWorld])
    rwa [outcome] at kept
  induction h with
  | done => exact sound
  | step at' _ succeeds _ ih => exact ih (called at' sound succeeds)
  | failed at' _ fails => exact called at' sound fails

/-- The steps of a run leave scenes sound, if every operation of the registry does. -/
theorem Completes.sound {before after : World} {e : Ending}
    (keeps : ∀ name o, r.operation? name = some o → o.KeepsScenes)
    (h : g.Completes r inputs callback before e after) (sound : before.scene.Sound) :
    after.scene.Sound := by
  refine Executes.sound ?_ h sound
  rintro i o ⟨_, _, _, operation, _, found⟩
  exact keeps operation o found

/-! ## What is left -/

/-- What a run that succeeds has done with nodes. All steps have been run, and the pipeline returns
what its outputs carry. If the results of the steps are of their declared types, the nodes of the
last step are left, but for those that a step has returned and nothing protects, if nodes are
removed at all. In any case a node is left that is protected, or referenced by one that is. -/
structure Removes (g : PipelineGraph) (r : Registry) (inputs : List (SlotKey × Datum))
    (mode : RunMode) (before : World) (d : Datum) (left : Scene Entries) (e : Ending)
    (after : World) : Prop where
  /-- All steps were run, one after another. -/
  completes : g.Completes r inputs (mode.start before).1
    ((mode.start before).2.report (mode.start before).1 "" 0 0 (Int64.ofNat g.pieces)) e after
  /-- None of them has failed. -/
  through : e.failure? = none
  /-- The pipeline returns what its outputs carry. -/
  returns : g.Returns Value.reading inputs e.results d
  /-- Of the nodes of the last step exactly those are gone that nothing protects, if any are. -/
  contains_iff : g.ResultsFit r e.results → ∀ id, left.contains id = true ↔
    after.scene.contains id = true ∧
      (mode.removes = true → ¬ g.Unprotected r inputs e.results d after.scene id)
  /-- Protected nodes and those that they reference are left. -/
  near : ∀ handle id, g.Protected inputs d handle →
    (handle.id = id ∨ ∃ role, after.scene.hasReference handle.id role id = true) →
      after.scene.contains id = true → left.contains id = true

/-- A run that succeeds of a unit that was generated from a validated pipeline, with settings that can
be used, removes exactly the nodes of its steps that nothing protects, if it is to remove nodes, and
else none. -/
theorem exists_removes_of_runIn {h h' : Host} {p : ValidatedPipeline} {s : Settings}
    {u : LoadedUnit} {d : Datum} (c : g.Compiled h.registry s p u)
    (keeps : ∀ name o, h.registry.operation? name = some o → o.KeepsScenes)
    (sound : h.world.scene.Sound)
    (ordered : p.graph.orderedInputs = .ok (inputs.map Prod.fst)) (mode : RunMode)
    (ok : h.runIn u (inputs.map Prod.snd) mode = (.ok d, h')) :
    ∃ e after, p.graph.Removes h.registry inputs mode h.world d h'.world.scene e after := by
  obtain ⟨e, after, outputs, returned, places, completed⟩ := c.exists_completed ordered mode ok
  have start : (mode.start h.world).2.scene.Sound := by rwa [mode.scene_start]
  have ended : after.scene.Sound := completed.completes.sound keeps start
  exact ⟨e, after,
    { completes := completed.completes
      through := completed.through
      returns := completed.returns
      contains_iff := fun fits id => completed.contains_left_iff c.wired c.registered ended fits
      near := fun handle id protect near there =>
        completed.contains_of_protected c.wired c.registered ended protect near there }⟩

/-- The ball in the box is left with the box; the other ball is removed. -/
theorem exists_removes_of_runIn_boxed : ∃ u d h' e after,
    boxedOnce.Compiled boxes .standard boxed u ∧
      (Host.new boxes []).runIn u [.int 5] .plain = (.ok d, h') ∧
      boxed.graph.Removes boxes [(.input "n", .int 5)] .plain .empty d h'.world.scene e after ∧
      boxed.graph.ResultsFit boxes e.results ∧ h'.world.scene.ids = ["Ball1", "Box1"] := by
  obtain ⟨text, c⟩ := exists_compiled_boxed
  let run := (Host.new boxes []).runIn (boxedUnit text) [.int 5] .plain
  -- the text of a unit has no part in its runs
  have through : run.1.isOk = true := by
    show ((Host.new boxes []).runIn (boxedUnit "") [.int 5] .plain).1.isOk = true
    decide +kernel
  have left : run.2.world.scene.ids = ["Ball1", "Box1"] := by
    show ((Host.new boxes []).runIn (boxedUnit "") [.int 5] .plain).2.world.scene.ids = _
    decide +kernel
  have operations : ∀ {name o}, boxes.operation? name = some o →
      o.KeepsScenes ∧ ∀ d, Datum.Fits (fun _ => True) o.returns d := by
    intro name o found
    have m : (name, o) ∈ boxes.operations := Keyed.mem_of_lookup found
    simp only [boxes, List.mem_cons, List.not_mem_nil, or_false] at m
    rcases m with e | e <;> cases e <;>
      exact ⟨fun call => Recipe.keepsSound_follow call _, fun _ => trivial⟩
  have ordered : boxed.graph.orderedInputs = .ok [.input "n"] :=
    (eq_ok_of_isOk (by decide +kernel) []).trans (congrArg _ (by decide +kernel))
  have ok : run = (.ok (run.1.toOption.getD .unit), run.2) :=
    Prod.ext (eq_ok_of_isOk through _) rfl
  obtain ⟨e, after, removes⟩ :=
    @exists_removes_of_runIn boxedOnce [(.input "n", .int 5)] (Host.new boxes []) _ boxed .standard
      (boxedUnit text) _ c (fun _ _ found => (operations found).1) Scene.sound_empty ordered .plain ok
  refine ⟨boxedUnit text, _, _, e, after, c, ok, removes, ?_, left⟩
  rintro i o result ⟨_, _, _, operation, _, found⟩ -
  exact (operations found).2 result

end PipelineGraph

end Pipewright
