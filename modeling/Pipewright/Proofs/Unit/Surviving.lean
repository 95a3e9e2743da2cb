import Pipewright.Proofs.DataType.Paths
import Pipewright.Proofs.Unit.Adoption
import Pipewright.Proofs.Unit.Failing

/-! # What a widget leaves alone
A widget may remove nodes twice: at the end of its pipeline, and when the results are copied. A node
that a parameter node holds as an input, in the place of a node, survives both. When the pipeline
fails, nothing is copied, and what is left is what the pipeline has left. A reference that a copy has
made is lost where the node that it leads to is released. -/

namespace Pipewright.PipelineGraph

variable {g : PipelineGraph} {r : Registry} {s : Settings} {inputs : List (SlotKey × Datum)}
  {outputs : List SlotKey} {h h' : Host} {u : LoadedUnit} {node : Entries} {d o : Datum} {id : String}

/-- A slot whose type has places of nodes holds nodes. -/
theorem holdsNode_of_mem_nodePaths {key : SlotKey} {path : List String}
    (m : path ∈ (g.slotType key).nodePaths) : g.HoldsNode key := by
  unfold slotType at m
  cases typed : g.datatype? key with
  | none =>
    rw [typed] at m
    cases m
  | some t =>
    rw [typed] at m
    exact ⟨t, typed, DataType.mentionsNode_of_mem_nodePaths m⟩

/-- A node that a parameter node holds among the inputs in the place of a node is spared. -/
theorem RunsOn.exists_spared (runs : g.RunsOn inputs node) (results : List (Nat × Datum))
    (holds : g.HasNode (inputs.map Prod.fst) (fun key => [key.slot]) (held node "inputs") id) :
    ∃ handle, handle.id = id ∧ g.Spared inputs results handle := by
  obtain ⟨key, there, path, place, handle, found, same⟩ := holds
  obtain ⟨⟨key, part⟩, m, rfl⟩ := List.mem_map.1 there
  rw [Datum.fields?_append, runs.given _ m, Option.bind_some] at found
  have within : handle ∈ (part.member path).nodes :=
    Datum.mem_nodes_member_iff.2 ⟨_, found, List.mem_singleton_self handle⟩
  exact ⟨handle, same, .inr ⟨key, part, m, holdsNode_of_mem_nodePaths place,
    Datum.nodes_member_subset part path within⟩⟩

/-- A node that a parameter node holds among the inputs is left when the results are copied. -/
theorem contains_adopted {inputs : List SlotKey} {scene : Scene Entries} (fits : g.ReturnFits outputs d)
    (given : g.HasNode inputs (fun key => [key.slot]) (held node "inputs") id)
    (there : scene.contains id = true) :
    (adopted g inputs outputs node d scene).2.contains id = true := by
  have adopts : g.Adopts "" inputs outputs node d scene
      (answer "" (adopted g inputs outputs node d scene).1)
      (adopted g inputs outputs node d scene).2 := adopts_adopted fits
  cases made : copied g outputs node d scene with
  | ok o => exact (adopts.released o made id).2 ⟨there, fun _ => .inl given⟩
  | error halt => exact (adopts.dropped halt made id).2 ⟨there, fun _ => given⟩

/-! ## References -/

/-- A node is among the results of a widget, and neither the inputs nor the outputs hold it when the
copies were made. -/
structure Released (g : PipelineGraph) (inputs outputs : List SlotKey) (node : Entries) (d o : Datum)
    (id : String) : Prop where
  /-- It is among the results. -/
  among : g.HasNode outputs (fun key => (sourceAccess outputs key).path) d id
  /-- No input holds it. -/
  apart : ¬ g.HasNode inputs (fun key => [key.slot]) (held node "inputs") id
  /-- No output holds it. -/
  free : ¬ g.HasNode outputs (fun key => [key.slot]) o id

/-- When all copies were made, exactly those references are lost at one end of which a node is
released. -/
theorem hasReference_adopted {inputs : List SlotKey} {scene : Scene Entries} (sound : scene.Sound)
    (made : copied g outputs node d scene = .ok o) {holder role target : String} :
    (adopted g inputs outputs node d scene).2.hasReference holder role target = true ↔
      (copiedScene g outputs node d scene).hasReference holder role target = true ∧
        ¬ g.Released inputs outputs node d o holder ∧
        (scene.contains target = true → ¬ g.Released inputs outputs node d o target) := by
  have released : ∀ id, g.Released inputs outputs node d o id ↔
      ¬ (g.HasNode outputs (fun key => (sourceAccess outputs key).path) d id →
        g.HasNode inputs (fun key => [key.slot]) (held node "inputs") id ∨
          g.HasNode outputs (fun key => [key.slot]) o id) := by
    intro id
    rw [Classical.not_imp, not_or]
    exact ⟨fun h => ⟨h.among, h.apart, h.free⟩, fun ⟨among, apart, free⟩ => ⟨among, apart, free⟩⟩
  have sound' : (copiedScene g outputs node d scene).Sound :=
    OutputCopy.sound_performAll d (allCopies g outputs) (held node "outputs") sound
  rw [adopted_of_copied inputs made, Scene.hasReference_drop sound', contains_copiedScene]
  simp only [includes_append, includes_sources_iff, includes_targets_iff]
  unfold keptNodes
  simp only [includes_kept_iff, released, not_not]

/-- A widget that has made all copies takes away exactly those references at one end of which a node of
the results is that neither the inputs nor the outputs hold; so a reference that was copied to an
output is lost with the node that it leads to. -/
theorem onRun_hasReference {p : ValidatedPipeline} (c : g.Compiled h.registry s p u)
    (free : s.runFunction ≠ "push")
    (ordered : p.graph.orderedInputs = .ok (inputs.map Prod.fst))
    (ordered' : p.graph.orderedOutputs = .ok outputs) (runs : p.graph.RunsOn inputs node)
    (callback? : Option Progress.Callback)
    (ok : h.runIn u (inputs.map Prod.snd) (widgetMode callback?) = (.ok d, h'))
    (fits : p.graph.ReturnFits outputs d)
    (within : h.Within u "on_run" (Datum.map node :: (callback?.map Datum.progress).toList))
    (sound : h'.world.scene.Sound)
    (made : copied p.graph outputs node d h'.world.scene = .ok o) (holder role target : String) :
    (h.onRun u node callback?).2.world.scene.hasReference holder role target = true ↔
      (copiedScene p.graph outputs node d h'.world.scene).hasReference holder role target = true ∧
        ¬ p.graph.Released (inputs.map Prod.fst) outputs node d o holder ∧
        (h'.world.scene.contains target = true →
          ¬ p.graph.Released (inputs.map Prod.fst) outputs node d o target) := by
  rw [onRun_eq_of_runIn c free ordered ordered' runs callback? ok fits within]
  exact hasReference_adopted sound made

/-! ## Calls of a widget -/

section Called

variable {callback? : Option Progress.Callback} {e : Ending} {after : World} {message : String}

/-- When the steps of a pipeline were run for a widget, nodes are removed as at the end of a run. -/
theorem HoldsWidget.ended {env : Host.Environment} {name : String} {pieces : List Piece}
    {piece widget : Piece} {steps : List Script.Stmt} {returned : List Binding}
    {places : List Access} {before : World}
    (holds : g.HoldsWidget env name s pieces piece widget (inputs.map Prod.fst) outputs steps
      returned places) (w : g.Wired env.registry)
    (completes : g.Completes env.registry inputs ((widgetMode callback?).start before).1
      (((widgetMode callback?).start before).2.report ((widgetMode callback?).start before).1 "" 0 0
        (Int64.ofNat g.pieces)) e after) :
    g.Ended env.registry inputs (widgetMode callback?) before
      (g.cleaned inputs true places (returned.filterMap Binding.access?)
        (g.endScope inputs ((widgetMode callback?).start before).1 true e) after).scene e after
      outputs returned places where
  named := namedKeys_of_orderedInputs w holds.parts.named holds.parts.ordered
  named' := namedKeys_of_orderedOutputs w holds.parts.named holds.parts.ordered'
  bound := holds.parts.bound
  managed := holds.parts.managed
  completes := completes
  left := by rw [removes_widgetMode]

variable {p : ValidatedPipeline} (c : g.Compiled h.registry s p u) (free : s.runFunction ≠ "push")
  (keeps : ∀ name o, h.registry.operation? name = some o → o.KeepsScenes)
  (sound : h.world.scene.Sound) (ordered : p.graph.orderedInputs = .ok (inputs.map Prod.fst))
  (ordered' : p.graph.orderedOutputs = .ok outputs) (runs : p.graph.RunsOn inputs node)
  (within : h.Within u "on_run" (Datum.map node :: (callback?.map Datum.progress).toList))
  (completes : p.graph.Completes h.registry inputs ((widgetMode callback?).start h.world).1
    (((widgetMode callback?).start h.world).2.report ((widgetMode callback?).start h.world).1 "" 0 0
      (Int64.ofNat p.graph.pieces)) e after) (fits : p.graph.ResultsHold h.registry e.results)

include c free keeps sound ordered ordered' runs within completes fits

/-- A widget in whose pipeline the operation of a step fails raises the message of the failure, and
exactly those nodes are gone that are loose. -/
theorem onRun_of_failure (failure : e.failure? = some message) :
    (h.onRun u node callback?).1 = .error ((Failure.script (.thrown (.text message))).within
        ("Failed to call " ++ u.name ++ "::" ++ "on_run")) ∧
      ∀ id, (h.onRun u node callback?).2.world.scene.contains id = true ↔
        after.scene.contains id = true ∧ ¬ p.graph.Loose h.registry inputs e.results after.scene id := by
  have w := c.wired
  obtain ⟨name, pieces, piece, widget, steps, returned, places, holds⟩ :=
    c.exists_holdsWidget free ordered ordered'
  have ended := holds.ended w completes
  have start : ((widgetMode callback?).start h.world).2.scene.Sound := by
    rwa [RunMode.scene_start]
  rw [holds.onRun_eq_thrown w c.registered runs within (completes.endsOnly w failure
    (straying?_eq_none w c.registered ended.named ended.managed fits))]
  refine ⟨rfl, fun id => ?_⟩
  refine (ended.contains_left_iff w c.registered (completes.sound keeps start) fits.fits).trans ?_
  rw [removes_widgetMode]
  exact and_congr_right fun _ => forall_prop_of_true rfl

/-- A node that a parameter node holds among the inputs in the place of a node, and that is there
when the steps have been run, is there when the widget has come to its end, whether a step has failed
or not. -/
theorem onRun_contains_input
    (returns : e.failure? = none → ∃ d, p.graph.Returns Value.reading inputs e.results d ∧
      p.graph.ReturnFits outputs d)
    (given : p.graph.HasNode (inputs.map Prod.fst) (fun key => [key.slot]) (held node "inputs") id)
    (there : after.scene.contains id = true) :
    (h.onRun u node callback?).2.world.scene.contains id = true := by
  have w := c.wired
  obtain ⟨name, pieces, piece, widget, steps, returned, places, holds⟩ :=
    c.exists_holdsWidget free ordered ordered'
  have ended := holds.ended w completes
  have start : ((widgetMode callback?).start h.world).2.scene.Sound := by
    rwa [RunMode.scene_start]
  have calm : straying? true places (returned.filterMap Binding.access?)
      (p.graph.endScope inputs ((widgetMode callback?).start h.world).1 true e) = none :=
    straying?_eq_none w c.registered ended.named ended.managed fits
  -- the pipeline leaves the node alone, as it leaves all nodes in the inputs alone
  obtain ⟨handle, same, spared⟩ := runs.exists_spared e.results given
  have left := ended.contains_of_spared w c.registered (completes.sound keeps start) spared
    (.inl same) there
  cases failure : e.failure? with
  | some message =>
    rw [holds.onRun_eq_thrown w c.registered runs within (completes.endsOnly w failure calm)]
    exact left
  | none =>
    obtain ⟨d, returned', fits'⟩ := returns failure
    have finishes := Finishes.returned completes failure calm returned'
    rw [holds.onRun_eq_adopted w c.registered runs within (finishes.endsOnly w) fits']
    -- and so does what copies the results
    exact contains_adopted fits' given left

end Called

/-! ## A ball that is handed on -/

/-- A parameter node that holds a ball. -/
def handedNode : Entries :=
  [("inputs", .map [("of", given)]), ("outputs", .map [("out", .unit)])]

/-- The ball that the parameter node holds is left, though a step has returned it, no output carries
it, and the pipeline fails. -/
theorem onRun_contains_input_broken : ∃ u after,
    brokenOnce.Compiled breaks .standard broken u ∧
      broken.graph.Completes breaks [(.input "of", given)] (RunMode.plain.start ballHost.world).1
        brokenStart brokenEnding after ∧
      broken.graph.Managed breaks brokenEnding.results "Ball1" ∧
      broken.graph.HasNode [.input "of"] (fun key => [key.slot]) (held handedNode "inputs")
        "Ball1" ∧
      (ballHost.onRun u handedNode none).2.world.scene.contains "Ball1" = true := by
  obtain ⟨text, c⟩ := exists_compiled_broken
  obtain ⟨after, completes, made⟩ := exists_completes_broken
  have within : ballHost.Within (brokenUnit text) "on_run" [.map handedNode] := by
    show Host.isExhausted ((Host.runFunctionOf (ballHost.environment (brokenUnit "").program)
      "on_run" [.map handedNode]).run.run ⟨[], ballHost.world, Host.maxSteps⟩).1 = false
    decide +kernel
  have ordered : broken.graph.orderedInputs = .ok [.input "of"] :=
    (eq_ok_of_isOk (by decide +kernel) []).trans (congrArg _ (by decide +kernel))
  have ordered' : broken.graph.orderedOutputs = .ok [.output 5 "out"] :=
    (eq_ok_of_isOk (by decide +kernel) []).trans (congrArg _ (by decide +kernel))
  have paths : (broken.graph.slotType (.input "of")).nodePaths = [[]] := by decide +kernel
  have runs : broken.graph.RunsOn [(.input "of", given)] handedNode := by
    constructor
    · rintro entry m
      cases List.mem_singleton.1 m
      rfl
    · intro key m path place
      cases List.mem_singleton.1 m
      rw [paths] at place
      cases List.mem_singleton.1 place
      exact ⟨given, rfl⟩
  have managed : broken.graph.Managed breaks brokenEnding.results "Ball1" :=
    ⟨3, _, ⟨.returnValue 3 "hand", by decide +kernel, rfl, _, rfl, rfl⟩, [],
      List.mem_singleton_self _, given, _, rfl, rfl, rfl⟩
  have holds : broken.graph.HasNode [.input "of"] (fun key => [key.slot])
      (held handedNode "inputs") "Ball1" :=
    ⟨.input "of", List.mem_singleton_self _, [], paths ▸ List.mem_singleton_self _, _, rfl, rfl⟩
  have there : after.scene.contains "Ball1" = true := by
    have m : "Ball1" ∈ after.scene.ids := by
      rw [made]
      exact List.mem_cons_self
    exact Keyed.contains_iff.2 m
  have left : (ballHost.onRun (brokenUnit text) handedNode none).2.world.scene.contains "Ball1" =
      true :=
    @onRun_contains_input brokenOnce .standard [(.input "of", given)] [.output 5 "out"] ballHost
      (brokenUnit text) handedNode "Ball1" none brokenEnding after broken c (by decide)
      (fun _ _ found => (operations_breaks found).1) (Scene.sound_empty.addNode ball "shown" [])
      ordered ordered' runs within completes resultsHold_broken (fun through => nomatch through)
      holds there
  exact ⟨brokenUnit text, after, c, completes, managed, holds, left⟩

end Pipewright.PipelineGraph
