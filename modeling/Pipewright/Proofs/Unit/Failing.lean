import Pipewright.Proofs.Unit.Copies
import Pipewright.Proofs.Unit.Removal

/-! # What a run that fails removes
When the operation of a step fails, the run raises its message after nodes were removed as at the
end of a run: those that the steps before have returned, but for those that the outputs carry by
then or an input holds, and those that are referenced by one of these. -/

namespace Pipewright.PipelineGraph

open Host (Yields functionResult)

variable {g : PipelineGraph} {r : Registry} {inputs : List (SlotKey × Datum)}
  {results : List (Nat × Datum)} {places returned : List Access} {callback : Progress.Callback}
  {removes failed : Bool} {failure : Datum}

/-- The results of steps have the packs of the types that their operations declare, and a node or
nothing in the places of nodes. -/
def ResultsHold (g : PipelineGraph) (r : Registry) (results : List (Nat × Datum)) : Prop :=
  ∀ i o result, g.OperationAt r i o → Keyed.lookup i results = some result →
    Datum.Fits Datum.IsNodeOrUnit o.returns result

/-- Such results have the packs of their types. -/
theorem ResultsHold.fits (h : g.ResultsHold r results) : g.ResultsFit r results :=
  fun i o result at' found => Datum.Fits.imp (fun _ _ => trivial) _ (h i o result at' found)

/-- Where results hold nodes or nothing in the places of nodes, nothing else is met when nodes are
removed. -/
theorem straying?_eq_none (w : g.Wired r) (built : r.Built)
    (named : g.NamedKeys 0 (inputs.map Prod.fst)) (managed : g.managed r = .ok places)
    (h : g.ResultsHold r results) :
    straying? removes places returned
      (g.runScope inputs callback removes results failed failure) = none := by
  unfold straying?
  split
  swap
  · rfl
  unfold strayAt?
  rw [List.findSome?_eq_none_iff]
  intro d m
  obtain ⟨a, m', rfl⟩ := List.mem_map.1 m
  rw [Datum.stray?_eq_none_iff]
  have m'' := (mem_removable_iff.1 m').1
  obtain ⟨i, o, at', path, place, rfl⟩ := (mem_managed_iff w built managed).1 m''
  obtain ⟨first, last⟩ := w.inner_of_operationAt at'
  unfold Access.read
  simp only
  rw [lookup_stepVariable w named first last, Option.getD_some]
  cases found : Keyed.lookup i results with
  -- a step that has not been run has left nothing
  | none => exact .inl (Datum.member_unit path)
  | some result =>
    obtain ⟨part, leads, node⟩ := Datum.Fits.exists_atNode _ (h i o result at' found) path place
    rcases Datum.member_of_fields? leads with e | ⟨e, -⟩
    · exact e ▸ node
    · exact .inl e

/-- Where the operation of a step fails, the function that runs a pipeline raises its message. -/
theorem Completes.endsOnly (w : g.Wired r) {started after : World} {e : Ending} {message : String}
    (completes : g.Completes r inputs callback started e after)
    (failure : e.failure? = some message)
    (calm : straying? removes places returned (g.endScope inputs callback removes e) = none) :
    g.EndsOnly r inputs callback removes places returned started (.error (.thrown (.text message)))
      (g.cleaned inputs removes places returned (g.endScope inputs callback removes e) after) := by
  intro ending last h
  cases h with
  | returned completes' through =>
    obtain ⟨rfl, rfl⟩ := Executes.unique w completes completes'
    cases failure.symm.trans through
  | raised completes' failure' =>
    obtain ⟨rfl, rfl⟩ := Executes.unique w completes completes'
    cases failure.symm.trans failure'
    exact ⟨rfl, rfl⟩
  | strayed completes' stray =>
    obtain ⟨rfl, rfl⟩ := Executes.unique w completes completes'
    cases calm.symm.trans stray
  | stuck stuck => exact absurd stuck (Executes.not_getsStuck w completes)
  | missed completes' through =>
    obtain ⟨rfl, rfl⟩ := Executes.unique w completes completes'
    cases failure.symm.trans through

variable {h : Host} {p : ValidatedPipeline} {s : Settings} {u : LoadedUnit}

/-- A run of a unit in which the operation of a step fails raises the message of the failure. Of the
nodes that there were then exactly those are gone that are loose, if nodes are removed: a step
before has returned them, and neither an output carries them by then, nor an input holds them, nor
such a node references them. -/
theorem runIn_of_failure (c : g.Compiled h.registry s p u)
    (keeps : ∀ name o, h.registry.operation? name = some o → o.KeepsScenes)
    (sound : h.world.scene.Sound)
    (ordered : p.graph.orderedInputs = .ok (inputs.map Prod.fst)) (mode : RunMode)
    (within : h.Within u u.runFunction (inputs.map Prod.snd ++ mode.arguments)) {e : Ending}
    {after : World} {message : String}
    (completes : p.graph.Completes h.registry inputs (mode.start h.world).1
      ((mode.start h.world).2.report (mode.start h.world).1 "" 0 0 (Int64.ofNat p.graph.pieces))
      e after)
    (failure : e.failure? = some message) (fits : p.graph.ResultsHold h.registry e.results) :
    (h.runIn u (inputs.map Prod.snd) mode).1 =
        .error ((Failure.script (.thrown (.text message))).within
          ("Failed to call " ++ u.name ++ "::" ++ u.runFunction)) ∧
      ∀ id, (h.runIn u (inputs.map Prod.snd) mode).2.world.scene.contains id = true ↔
        after.scene.contains id = true ∧
          (mode.removes = true → ¬ p.graph.Loose h.registry inputs e.results after.scene id) := by
  have w := c.wired
  obtain ⟨name, hasIcon, pieces, made, holds⟩ := c.exists_holds h.classes
  obtain ⟨-, parameters, run, widget, -, second, -, rfl⟩ := exists_unitPieces made
  obtain ⟨keys, outputs, steps, returned, places, parts⟩ := exists_runParts second
  cases ordered.symm.trans parts.ordered
  have m : run ∈ [metadataPiece name p h.registry s hasIcon, parameters, run, widget] := by simp
  obtain ⟨ending, last, ran, finishes⟩ := c.exists_finishes holds m parts mode
  have named := namedKeys_of_orderedInputs w parts.named parts.ordered
  obtain ⟨rfl, rfl⟩ := completes.endsOnly w failure
    (straying?_eq_none w c.registered named parts.managed fits) _ _ finishes
  have ended : p.graph.Ended h.registry inputs mode h.world _ e after outputs returned places :=
    { named := named
      named' := namedKeys_of_orderedOutputs w parts.named parts.ordered'
      bound := parts.bound
      managed := parts.managed
      completes := completes
      left := rfl }
  have start : (mode.start h.world).2.scene.Sound := by rwa [mode.scene_start]
  have sound' : after.scene.Sound := completes.sound keeps start
  rw [Host.runIn_eq, Host.call_eq ran within]
  exact ⟨rfl, fun id => ended.contains_left_iff w c.registered sound' fits.fits⟩

/-! ## A step that fails behind three others -/

/-- Handing a ball on. -/
def handing : Registration where
  name := "hand"
  signature := ⟨[("of", some (.node ball))], some (.node ball)⟩
  dependencies := []
  categories := []
  implementation c := Recipe.follow c (.argument "of")

/-- Failing. -/
def breaking : Registration where
  name := "break"
  signature := ⟨[], some .int⟩
  dependencies := []
  categories := []
  implementation c := Recipe.follow c (.fail "broken")

/-- The registry in which balls can be made and handed on, and something can fail. -/
def breaks : Registry :=
  ⟨[("ball", ⟨"ball", [], .node ball, none, [], [], balling.implementation⟩),
    ("break", ⟨"break", [], .int, none, [], [], breaking.implementation⟩),
    ("hand", ⟨"hand", [("of", .node ball)], .node ball, none, [], [], handing.implementation⟩)]⟩

/-- Two balls are made, of which the first one would be returned, and the one that is given is handed
on, and then something fails. -/
def brokenOnce : PipelineGraph :=
  let slots := ((((((empty.addInput "of" (.node ball) 0).addReturn 1 "ball").addReturn 2
    "ball").addParameter 3 "hand" "of").addReturn 3 "hand").addReturn 4 "break").addOutput 5 "out"
    (.node ball) 0
  (slots.addEdge (.input "of") (.parameter 3 "hand" "of")).addEdge (.returnValue 1 "ball")
    (.output 5 "out")

/-- The pipeline that fails, validated. -/
def broken : ValidatedPipeline := (brokenOnce.validate breaks).toOption.getD ⟨empty⟩

/-- The pieces of its unit. -/
def brokenPieces : List Piece :=
  (unitPieces "breaking" broken breaks .standard false).toOption.getD []

/-- Its unit. -/
def brokenUnit (text : String) : LoadedUnit :=
  unitOf "breaking" text Settings.standard.runFunction [.operations, .progress, .scene] brokenPieces

/-- The pipeline is compiled. -/
theorem exists_compiled_broken :
    ∃ text, brokenOnce.Compiled breaks .standard broken (brokenUnit text) := by
  have built : brokenOnce.Built := by
    unfold brokenOnce addOutput addReturn addParameter addInput
    exact ⟨.addEdge _ _ (.addEdge _ _ (.addNode _ _ (.addNode _ _ (.addNode _ _ (.addNode _ _
      (.addNode _ _ (.addNode _ _ (.addNode _ _ .empty)))))))), by decide +kernel⟩
  have registered : breaks.Built :=
    .register breaking (.register handing (.register balling .empty rfl) rfl) rfl
  have valid : brokenOnce.validate breaks = .ok broken := eq_ok_of_isOk (by decide +kernel) _
  have lines : broken.graph.Lines breaks := .of_all (by decide +kernel) (by decide +kernel)
  have made : unitPieces "breaking" broken breaks .standard false = .ok brokenPieces :=
    eq_ok_of_isOk (by decide +kernel) _
  exact exists_compiled built registered valid Settings.usable_standard lines made
    (eq_ok_of_isOk (by decide +kernel) []) (eq_ok_of_isOk (by decide +kernel) [])
    (by decide +kernel) (by decide +kernel) (by decide +kernel)

/-- The operations of the registry leave scenes sound, and nodes fit what they return. -/
theorem operations_breaks {name : String} {o : Operation} (found : breaks.operation? name = some o) :
    o.KeepsScenes ∧ ∀ handle, Datum.Fits Datum.IsNodeOrUnit o.returns (.node handle) := by
  have m : (name, o) ∈ breaks.operations := Keyed.mem_of_lookup found
  simp only [breaks, List.mem_cons, List.not_mem_nil, or_false] at m
  rcases m with e | e | e <;> cases e
  · exact ⟨fun call => Recipe.keepsSound_follow call _, fun handle => .inr ⟨handle, rfl⟩⟩
  · exact ⟨fun call => Recipe.keepsSound_follow call _, fun _ => trivial⟩
  · exact ⟨fun call => Recipe.keepsSound_follow call _, fun handle => .inr ⟨handle, rfl⟩⟩

/-- The ball that is there before. -/
def given : Datum := .node ⟨"Ball1", ball⟩

/-- The host of balls whose scene has one. -/
def ballHost : Host :=
  { Host.new breaks [] with
    world := { World.empty with scene := (Scene.empty.addNode ball "shown" []).2 } }

/-- The world in which the steps of a run of that pipeline start. -/
def brokenStart : World :=
  (RunMode.plain.start ballHost.world).2.report (RunMode.plain.start ballHost.world).1 "" 0 0
    (Int64.ofNat broken.graph.pieces)

/-- How the steps of that pipeline end. -/
def brokenEnding : Ending :=
  ⟨[(3, given), (2, .node ⟨"Ball3", ball⟩), (1, .node ⟨"Ball2", ball⟩)], some "break: broken"⟩

/-- The results hold balls where they are to. -/
theorem resultsHold_broken : broken.graph.ResultsHold breaks brokenEnding.results := by
  rintro i o result ⟨_, _, _, operation, _, found⟩ there
  obtain ⟨handle, rfl⟩ : ∃ handle, result = .node handle := by
    have m := Keyed.mem_of_lookup there
    simp only [brokenEnding, List.mem_cons, List.not_mem_nil, or_false] at m
    rcases m with e | e | e <;> cases e <;> exact ⟨_, rfl⟩
  exact (operations_breaks found).2 handle

/-- Both balls are made and the one that is there is handed on before the failure. -/
theorem exists_completes_broken : ∃ after,
    broken.graph.Completes breaks [(.input "of", given)] (RunMode.plain.start ballHost.world).1
      brokenStart brokenEnding after ∧
    after.scene.ids = ["Ball1", "Ball2", "Ball3"] := by
  have steps : List.range' 1 (broken.graph.lastStep - 1) = [1, 2, 3, 4] := by decide +kernel
  have operationAt : ∀ {i : Nat} (name : String) {o : Operation}, breaks.operation? name = some o →
      SlotKey.returnValue i name ∈ broken.graph.keys → broken.graph.OperationAt breaks i o :=
    fun _ _ found there => ⟨_, there, rfl, _, rfl, found⟩
  -- all operations but one take no argument
  have bare : ∀ {i : Nat} {o : Operation} {w : World} {results : List (Nat × Datum)},
      o.parameters = [] → o.progress? = none → broken.graph.CallArguments Value.reading
        [(.input "of", given)] (RunMode.plain.start ballHost.world).1 results i o w [] := by
    intro i o w results parameters progress
    exact
      { sorted := List.Pairwise.nil
        names := fun name => by simp [Keyed.keys, parameters, progress]
        carried := fun name m => by simp [Keyed.keys, parameters] at m
        progress := fun name reports => by simp [progress] at reports }
  have handed : ∀ {o : Operation} {w : World} {results : List (Nat × Datum)},
      breaks.operation? "hand" = some o → broken.graph.CallArguments Value.reading
        [(.input "of", given)] (RunMode.plain.start ballHost.world).1 results 3 o w
        [("of", given)] := by
    intro o w results found
    cases found
    refine
      { sorted := List.pairwise_singleton _ _
        names := fun name => by simp [Keyed.keys]
        carried := fun name m => ⟨given, ?_⟩
        progress := fun name reports => by cases reports }
    cases List.mem_singleton.1 m
    have fed : broken.graph.FedBy (.parameter 3 "hand" "of") (.input "of") :=
      ⟨by decide +kernel, by decide +kernel⟩
    exact ⟨rfl, .input fed rfl rfl⟩
  unfold Completes
  rw [steps]
  refine ⟨_, .step (operationAt "ball" rfl (by decide +kernel)) (bare rfl rfl) rfl
    (.step (operationAt "ball" rfl (by decide +kernel)) (bare rfl rfl) rfl
      (.step (operationAt "hand" rfl (by decide +kernel)) (handed rfl) rfl
        (.failed (operationAt "break" rfl (by decide +kernel)) (bare rfl rfl) rfl))), ?_⟩
  decide +kernel

/-- The third ball is loose and removed. The second one is left, though nothing is returned, because
the output carries it by then; the first one is left because it is an input. -/
theorem runIn_of_failure_broken : ∃ u after,
    brokenOnce.Compiled breaks .standard broken u ∧
      broken.graph.ResultsHold breaks brokenEnding.results ∧
      broken.graph.Completes breaks [(.input "of", given)] (RunMode.plain.start ballHost.world).1
        brokenStart brokenEnding after ∧
      after.scene.ids = ["Ball1", "Ball2", "Ball3"] ∧
      (ballHost.runIn u [given] .plain).1 =
        .error ((Failure.script (.thrown (.text "break: broken"))).within
          "Failed to call breaking::run") ∧
      (ballHost.runIn u [given] .plain).2.world.scene.ids = ["Ball1", "Ball2"] ∧
      ∀ id ∈ after.scene.ids, broken.graph.Loose breaks [(.input "of", given)] brokenEnding.results
        after.scene id ↔ id = "Ball3" := by
  obtain ⟨text, c⟩ := exists_compiled_broken
  obtain ⟨after, completes, made⟩ := exists_completes_broken
  let run := ballHost.runIn (brokenUnit text) [given] .plain
  -- the text of a unit has no part in its runs
  have left : run.2.world.scene.ids = ["Ball1", "Ball2"] := by
    show (ballHost.runIn (brokenUnit "") [given] .plain).2.world.scene.ids = _
    decide +kernel
  have within : ballHost.Within (brokenUnit text) (brokenUnit text).runFunction [given] := by
    show Host.isExhausted ((Host.runFunctionOf (ballHost.environment (brokenUnit "").program) "run"
      [given]).run.run ⟨[], ballHost.world, Host.maxSteps⟩).1 = false
    decide +kernel
  have ordered : broken.graph.orderedInputs = .ok [.input "of"] :=
    (eq_ok_of_isOk (by decide +kernel) []).trans (congrArg _ (by decide +kernel))
  have sound : ballHost.world.scene.Sound := Scene.sound_empty.addNode ball "shown" []
  obtain ⟨raised, contains⟩ :=
    @runIn_of_failure brokenOnce [(.input "of", given)] ballHost broken .standard (brokenUnit text) c
      (fun _ _ found => (operations_breaks found).1) sound ordered .plain within _ after _ completes
      rfl resultsHold_broken
  refine ⟨brokenUnit text, after, c, resultsHold_broken, completes, made, raised, left, ?_⟩
  intro id there
  -- what is there is told by the ids
  have shown : ∀ {scene : Scene Entries} {id : String}, scene.contains id = true ↔ id ∈ scene.ids :=
    Keyed.contains_iff
  have spared : id ∈ run.2.world.scene.ids ↔ _ := shown.symm.trans (contains id)
  rw [shown, left] at spared
  constructor
  · intro loose
    by_contra other
    rw [made] at there
    have early : id ∈ ["Ball1", "Ball2"] := by
      simp only [List.mem_cons, List.not_mem_nil, or_false] at there ⊢
      tauto
    exact (spared.1 early).2 rfl loose
  · rintro rfl
    by_contra free
    exact absurd (spared.2 ⟨there, fun _ => free⟩) (by decide)

end Pipewright.PipelineGraph
