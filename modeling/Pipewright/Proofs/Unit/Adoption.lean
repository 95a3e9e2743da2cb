import Pipewright.Proofs.Unit.OnRun

/-! # What becomes of the results of a widget
A widget runs its pipeline on what a parameter node holds and copies the results to the outputs of
the parameter node. Nodes among the results that nobody holds afterwards are removed. -/

namespace Pipewright

open Host (Environment Yields)

namespace PipelineGraph

variable {g : PipelineGraph} {s : Settings} {inputs : List (SlotKey × Datum)}
  {outputs : List SlotKey} {h h' : Host} {u : LoadedUnit} {node : Entries} {d : Datum}

/-- The outputs of a parameter node when the copies were made, or what one of them has failed with. -/
def copied (g : PipelineGraph) (outputs : List SlotKey) (node : Entries) (d : Datum)
    (scene : Scene Entries) : Except Host.Halt Datum :=
  (OutputCopy.performAll d (allCopies g outputs) (held node "outputs") scene).1

/-- The nodes when the copies were made, before any of them is removed. -/
def copiedScene (g : PipelineGraph) (outputs : List SlotKey) (node : Entries) (d : Datum)
    (scene : Scene Entries) : Scene Entries :=
  (OutputCopy.performAll d (allCopies g outputs) (held node "outputs") scene).2

/-- Making the copies neither adds nor removes nodes. -/
@[simp] theorem contains_copiedScene (scene : Scene Entries) (id : String) :
    (copiedScene g outputs node d scene).contains id = scene.contains id :=
  OutputCopy.contains_performAll d (allCopies g outputs) (held node "outputs") scene id

/-- What becomes of the results of a widget, and of the outputs of the parameter node that it is run
on. The scene is that in which the pipeline has returned. If all copies are made, the nodes in the
results are removed that neither the inputs nor the outputs hold, an output that held a node still
holds it, unless a part that is copied as it is leads to the place or around it, and one that held
nothing holds the node of the result. If a copy fails, the nodes in the results are removed that the
inputs do not hold, and there is no other parameter node. -/
structure Adopts (g : PipelineGraph) (unit : String) (inputs outputs : List SlotKey)
    (node : Entries) (d : Datum) (scene : Scene Entries) (answer : Except Failure Entries)
    (left : Scene Entries) : Prop where
  /-- When all copies are made, the parameter node has the outputs that they lead to. -/
  returned : ∀ o, copied g outputs node d scene = .ok o →
    answer = .ok (Keyed.insert "outputs" o node)
  /-- Then exactly the nodes in the results are gone that neither inputs nor outputs hold. -/
  released : ∀ o, copied g outputs node d scene = .ok o →
    ∀ id, left.contains id = true ↔ scene.contains id = true ∧
      (g.HasNode outputs (fun key => (sourceAccess outputs key).path) d id →
        g.HasNode inputs (fun key => [key.slot]) (held node "inputs") id ∨
          g.HasNode outputs (fun key => [key.slot]) o id)
  /-- An output that held a node still holds it, unless a part was copied there as it is. -/
  kept : ∀ o, copied g outputs node d scene = .ok o →
    ∀ key ∈ outputs, ∀ path ∈ (g.slotType key).nodePaths,
      OutputCopy.Unshadowed (allCopies g outputs) (key.slot :: path) → ∀ handle,
        (held node "outputs").fields? (key.slot :: path) = some (.node handle) →
        o.fields? (key.slot :: path) = some (.node handle)
  /-- An output that held nothing holds what was returned for it. -/
  filled : ∀ o, copied g outputs node d scene = .ok o →
    ∀ key ∈ outputs, ∀ path ∈ (g.slotType key).nodePaths,
      (held node "outputs").fields? (key.slot :: path) = some .unit →
      o.fields? (key.slot :: path) = d.fields? ((sourceAccess outputs key).path ++ path)
  /-- When a copy fails, the widget fails with its error. -/
  failed : ∀ halt, copied g outputs node d scene = .error halt → ∃ e,
    Host.result (.error (OutputCopy.failure (allCopies g outputs) halt)) = .error e ∧
      answer = .error ((Failure.script e).within ("Failed to call " ++ unit ++ "::" ++ "on_run"))
  /-- Then exactly the nodes in the results are gone that the inputs do not hold. -/
  dropped : ∀ halt, copied g outputs node d scene = .error halt →
    ∀ id, left.contains id = true ↔ scene.contains id = true ∧
      (g.HasNode outputs (fun key => (sourceAccess outputs key).path) d id →
        g.HasNode inputs (fun key => [key.slot]) (held node "inputs") id)

/-- A node that is among some values or others is among all of them. -/
theorem includes_append {ds ds' : List Datum} {id : String} :
    Datum.Includes (ds ++ ds') id ↔ Datum.Includes ds id ∨ Datum.Includes ds' id := by
  simp [Datum.Includes, or_and_right, exists_or]

/-- What a call of a widget answers, if it comes to something. -/
def answer (unit : String) (r : Except Host.Halt Datum) : Except Failure Entries :=
  ((Host.result r).mapError fun e =>
    (Failure.script e).within ("Failed to call " ++ unit ++ "::" ++ "on_run")).bind fun
      | .map entries => .ok entries
      | d => .error (.script (.notMap "on_run" d.hostKind))

/-- What a widget comes to when all copies are made. -/
theorem adopted_of_copied (keep : List SlotKey) {scene : Scene Entries} {o : Datum}
    (made : copied g outputs node d scene = .ok o) :
    adopted g keep outputs node d scene = (.ok (.map (Keyed.insert "outputs" o node)),
      (copiedScene g outputs node d scene).drop
        (keptNodes g keep node ++ OutputCopy.targets (allCopies g outputs) o)
        (OutputCopy.sources (allCopies g outputs) d)) := by
  unfold copied at made
  unfold adopted copiedScene
  simp only
  generalize OutputCopy.performAll d (allCopies g outputs) (held node "outputs") scene = out at made ⊢
  obtain ⟨r, scene'⟩ := out
  cases made
  rfl

/-- What a widget comes to when a copy fails. -/
theorem adopted_of_failed (keep : List SlotKey) {scene : Scene Entries} {halt : Host.Halt}
    (failed : copied g outputs node d scene = .error halt) :
    adopted g keep outputs node d scene = (.error (OutputCopy.failure (allCopies g outputs) halt),
      (copiedScene g outputs node d scene).drop (keptNodes g keep node)
        (OutputCopy.sources (allCopies g outputs) d)) := by
  unfold copied at failed
  unfold adopted copiedScene
  simp only
  generalize OutputCopy.performAll d (allCopies g outputs) (held node "outputs") scene = out
    at failed ⊢
  obtain ⟨r, scene'⟩ := out
  cases failed
  rfl

/-- A program fails where a copy has failed. -/
theorem exists_result_failure {scene : Scene Entries} {halt : Host.Halt}
    (failed : copied g outputs node d scene = .error halt) :
    ∃ e, Host.result (.error (OutputCopy.failure (allCopies g outputs) halt)) = .error e := by
  obtain ⟨seen, caught⟩ := OutputCopy.exists_caught_of_performAll failed
  simp only [OutputCopy.failure, caught, Option.map_some, Option.getD_some]
  split
  · cases halt with
    | thrown d => exact ⟨_, rfl⟩
    | fault => exact ⟨_, rfl⟩
    | _ => cases caught
  · exact ⟨_, rfl⟩

/-- What becomes of the results of a widget. -/
theorem adopts_adopted {unit : String} {inputs : List SlotKey} {scene : Scene Entries}
    (fits : g.ReturnFits outputs d) :
    g.Adopts unit inputs outputs node d scene
      (answer unit (adopted g inputs outputs node d scene).1)
      (adopted g inputs outputs node d scene).2 where
  returned o made := by
    rw [adopted_of_copied inputs made]
    rfl
  released o made id := by
    rw [adopted_of_copied inputs made, Scene.contains_drop, contains_copiedScene, includes_append,
      includes_sources_iff, includes_targets_iff]
    unfold keptNodes
    rw [includes_kept_iff]
  kept o made key there path place unshadowed handle held' :=
    OutputCopy.node_stays (mem_allCopies there place) made (aligned_allCopies g outputs) unshadowed
      held'
  filled o made key there path place empty := by
    obtain ⟨src, found, plain⟩ := fits.exists_source there place
    rw [found]
    exact OutputCopy.empty_filled (mem_allCopies there place) rfl made (aligned_allCopies g outputs)
      empty found plain
  failed halt failed := by
    obtain ⟨fault, result⟩ := exists_result_failure failed
    refine ⟨fault, result, ?_⟩
    rw [adopted_of_failed inputs failed, answer, result]
    rfl
  dropped halt failed id := by
    rw [adopted_of_failed inputs failed, Scene.contains_drop, contains_copiedScene,
      includes_sources_iff]
    unfold keptNodes
    rw [includes_kept_iff]

/-! ## Calls of a widget -/

/-- The unit of a compiled pipeline has a widget. -/
theorem Compiled.exists_holdsWidget {p : ValidatedPipeline} (c : g.Compiled h.registry s p u)
    (free : s.runFunction ≠ "push") {inputs : List SlotKey}
    (ordered : p.graph.orderedInputs = .ok inputs) (ordered' : p.graph.orderedOutputs = .ok outputs) :
    ∃ name pieces piece widget steps returned places,
      p.graph.HoldsWidget (h.environment u.program) name s pieces piece widget inputs outputs steps
        returned places := by
  obtain ⟨name, hasIcon, pieces, made, holds⟩ := c.exists_holds h.classes
  have push : Environment.Lacks (h.environment u.program) "push" :=
    holds.only _ (name_ne_of_isForeign made (by decide +kernel) free)
  -- the orders that the pieces were generated with are those that are given
  obtain ⟨-, parameters, run, widget, -, second, third, rfl⟩ := exists_unitPieces made
  obtain ⟨keys, outputs', steps, returned, places, parts⟩ := exists_runParts second
  cases ordered.symm.trans parts.ordered
  cases ordered'.symm.trans parts.ordered'
  obtain ⟨keys', outputs'', first', second', shape⟩ := exists_widgetPiece third
  cases ordered.symm.trans first'
  cases ordered'.symm.trans second'
  have functions : widget.functions = [copyFunction, holdsFunction, releaseFunction,
      setupFunction name] ++ widgetFunctions p.graph s.runFunction inputs outputs := by
    rw [shape, Piece.functions, List.filterMap_cons, Item.function?, filterMap_function?]
  exact ⟨name, _, run, widget, steps, returned, places,
    { holds := holds
      runs := by simp
      shows := by simp
      parts := parts
      functions := functions
      push := push }⟩

section Answers

variable {name : String} {pieces : List Piece} {piece widget : Piece} {steps : List Script.Stmt}
  {returned : List Binding} {places : List Access} {callback? : Option Progress.Callback}
  {after : World} (w : g.Wired h.registry) (built : h.registry.Built)
  (c : g.HoldsWidget (h.environment u.program) name s pieces piece widget (inputs.map Prod.fst)
    outputs steps returned places) (runs : g.RunsOn inputs node)
  (within : h.Within u "on_run" (Datum.map node :: (callback?.map Datum.progress).toList))

include c within in
/-- A widget answers what its function comes to. -/
theorem HoldsWidget.onRun_eq {r : Except Host.Halt Datum} (plain : Host.functionResult r = r)
    (body : ∀ depth, ∃ inner, Yields (Host.evalBlock (h.environment u.program)
        (Host.callFunction (h.environment u.program) (depth + 2)) .unit
        (onRunFunction g s.runFunction (inputs.map Prod.fst) outputs).body)
      (onRunScope ((widgetMode callback?).start h.world).1 node)
      ((widgetMode callback?).start h.world).2 r inner after) :
    h.onRun u node callback? = (answer u.name r, { h with world := after }) := by
  obtain ⟨own, found, called⟩ := c.exists_called plain body
  unfold Host.onRun Host.callForMap
  rw [Host.call_eq (c.holds.yields_runFunctionOf found called) within]
  rfl

include c w built runs within in
/-- A widget whose pipeline returns something fitting answers what becomes of it. -/
theorem HoldsWidget.onRun_eq_adopted (ends : g.EndsOnly h.registry inputs
      ((widgetMode callback?).start h.world).1 true places (returned.filterMap Binding.access?)
      (((widgetMode callback?).start h.world).2.report ((widgetMode callback?).start h.world).1 "" 0 0
        (Int64.ofNat g.pieces)) (.ok d) after) (fits : g.ReturnFits outputs d) :
    h.onRun u node callback? =
      (answer u.name (adopted g (inputs.map Prod.fst) outputs node d after.scene).1,
        { h with world := adoptedWorld g (inputs.map Prod.fst) outputs node d after }) :=
  c.onRun_eq within (functionResult_adopted ..) (c.yields_adopted w built runs ends fits)

include c w built runs within in
/-- A widget whose pipeline raises something raises it, and leaves the world to it. -/
theorem HoldsWidget.onRun_eq_thrown (ends : g.EndsOnly h.registry inputs
      ((widgetMode callback?).start h.world).1 true places (returned.filterMap Binding.access?)
      (((widgetMode callback?).start h.world).2.report ((widgetMode callback?).start h.world).1 "" 0 0
        (Int64.ofNat g.pieces)) (.error (.thrown d)) after) :
    h.onRun u node callback? = (answer u.name (.error (.thrown d)), { h with world := after }) :=
  c.onRun_eq within rfl (c.yields_thrown w built runs ends)

end Answers

/-- What a widget answers, and in which world, where a run of its pipeline returns something fitting. -/
theorem onRun_eq_of_runIn {p : ValidatedPipeline} (c : g.Compiled h.registry s p u)
    (free : s.runFunction ≠ "push")
    (ordered : p.graph.orderedInputs = .ok (inputs.map Prod.fst))
    (ordered' : p.graph.orderedOutputs = .ok outputs) (runs : p.graph.RunsOn inputs node)
    (callback? : Option Progress.Callback)
    (ok : h.runIn u (inputs.map Prod.snd) (widgetMode callback?) = (.ok d, h'))
    (fits : p.graph.ReturnFits outputs d)
    (within : h.Within u "on_run" (Datum.map node :: (callback?.map Datum.progress).toList)) :
    h.onRun u node callback? =
      (answer u.name (adopted p.graph (inputs.map Prod.fst) outputs node d h'.world.scene).1,
        { h with world := adoptedWorld p.graph (inputs.map Prod.fst) outputs node d h'.world }) := by
  obtain ⟨name, pieces, piece, widget, steps, returned, places, holds⟩ :=
    c.exists_holdsWidget free ordered ordered'
  have finishes := c.finishes_of_runIn holds.holds holds.runs holds.parts (widgetMode callback?) ok
  rw [removes_widgetMode] at finishes
  exact holds.onRun_eq_adopted c.wired c.registered runs within (finishes.endsOnly c.wired) fits

/-- A widget of a pipeline that has returned something fitting adopts the results. The unit was
generated with settings that can be used, and the function that runs it does not hide the host's
`push`, with which widgets keep account of what they have removed. -/
theorem onRun_adopts {p : ValidatedPipeline} (c : g.Compiled h.registry s p u)
    (free : s.runFunction ≠ "push")
    (ordered : p.graph.orderedInputs = .ok (inputs.map Prod.fst))
    (ordered' : p.graph.orderedOutputs = .ok outputs) (runs : p.graph.RunsOn inputs node)
    (callback? : Option Progress.Callback)
    (ok : h.runIn u (inputs.map Prod.snd) (widgetMode callback?) = (.ok d, h'))
    (fits : p.graph.ReturnFits outputs d)
    (within : h.Within u "on_run" (Datum.map node :: (callback?.map Datum.progress).toList)) :
    p.graph.Adopts u.name (inputs.map Prod.fst) outputs node d h'.world.scene
      (h.onRun u node callback?).1 (h.onRun u node callback?).2.world.scene := by
  rw [onRun_eq_of_runIn c free ordered ordered' runs callback? ok fits within]
  exact adopts_adopted fits

/-! ## A box that a parameter node holds -/

/-- The world of a scene in which there is a box. -/
def oneBox : World := { World.empty with scene := (Scene.empty.addNode box "shown" []).2 }

/-- The host of balls and boxes whose scene has a box. -/
def boxHost : Host := { Host.new boxes [] with world := oneBox }

/-- A parameter node that holds the box of the scene as output. -/
def boxNode : Entries :=
  [("inputs", .map [("n", .int 5)]), ("outputs", .map [("out", .node ⟨"Box1", box⟩)])]

/-- What goes through with a node has come to one. -/
theorem exists_node_of_any {ε : Type} {x : Except ε Datum}
    (h : x.toOption.any (fun d => d.node?.isSome) = true) : ∃ handle, x = .ok (.node handle) := by
  cases x with
  | ok d =>
    cases d with
    | node handle => exact ⟨handle, rfl⟩
    | _ => cases h
  | error e => cases h

/-- The content of the new box goes to the box that the parameter node holds. -/
theorem onRun_adopts_boxed : ∃ u d h',
    boxedOnce.Compiled boxes .standard boxed u ∧
      boxHost.runIn u [.int 5] (widgetMode none) = (.ok d, h') ∧
      boxed.graph.ReturnFits [.output 4 "out"] d ∧
      boxed.graph.Adopts u.name [.input "n"] [.output 4 "out"] boxNode d h'.world.scene
        (boxHost.onRun u boxNode none).1 (boxHost.onRun u boxNode none).2.world.scene ∧
      h'.world.scene.ids = ["Ball1", "Box1", "Box2"] ∧
      (boxHost.onRun u boxNode none).2.world.scene.ids = ["Ball1", "Box1"] := by
  obtain ⟨text, c⟩ := exists_compiled_boxed
  let run := boxHost.runIn (boxedUnit text) [.int 5] (widgetMode none)
  -- the text of a unit has no part in its runs
  have through : run.1.toOption.any (fun d => d.node?.isSome) = true := by
    show (boxHost.runIn (boxedUnit "") [.int 5] (widgetMode none)).1.toOption.any _ = true
    decide +kernel
  have between : run.2.world.scene.ids = ["Ball1", "Box1", "Box2"] := by
    show (boxHost.runIn (boxedUnit "") [.int 5] (widgetMode none)).2.world.scene.ids = _
    decide +kernel
  have left : (boxHost.onRun (boxedUnit text) boxNode none).2.world.scene.ids = ["Ball1", "Box1"] := by
    show (boxHost.onRun (boxedUnit "") boxNode none).2.world.scene.ids = _
    decide +kernel
  have within : boxHost.Within (boxedUnit text) "on_run" [.map boxNode] := by
    show Host.isExhausted ((Host.runFunctionOf (boxHost.environment (boxedUnit "").program) "on_run"
      [.map boxNode]).run.run ⟨[], boxHost.world, Host.maxSteps⟩).1 = false
    decide +kernel
  have ordered : boxed.graph.orderedInputs = .ok [.input "n"] :=
    (eq_ok_of_isOk (by decide +kernel) []).trans (congrArg _ (by decide +kernel))
  have ordered' : boxed.graph.orderedOutputs = .ok [.output 4 "out"] :=
    (eq_ok_of_isOk (by decide +kernel) []).trans (congrArg _ (by decide +kernel))
  have runs : boxed.graph.RunsOn [(.input "n", .int 5)] boxNode := by
    constructor
    · rintro entry m
      cases List.mem_singleton.1 m
      rfl
    · intro key m path place
      cases List.mem_singleton.1 m
      have nothing : (boxed.graph.slotType (.input "n")).nodePaths = [] := by decide +kernel
      rw [nothing] at place
      cases place
  obtain ⟨handle, e⟩ := exists_node_of_any through
  have ok : run = (.ok (.node handle), run.2) := Prod.ext e rfl
  have fits : boxed.graph.ReturnFits [.output 4 "out"] (.node handle) := by
    intro key m
    cases List.mem_singleton.1 m
    have managed : (boxed.graph.slotType (.output 4 "out")).isManaged = true := by decide +kernel
    exact ⟨.node handle, rfl, (Datum.fits_iff_of_isManaged managed).2 (.inr ⟨handle, rfl⟩)⟩
  exact ⟨boxedUnit text, _, _, c, ok, fits,
    onRun_adopts c (by decide) ordered ordered' runs none ok fits within, between, left⟩

/-! ## Two fields of one name -/

/-- A pack with two fields of one name, of which one is a node. -/
def twins : DataType := .pack "Twins" [("part", .node ball), ("part", .external "handle")]

/-- Making such a pack. -/
def twinning : Registration where
  name := "twin"
  signature := ⟨[], some twins⟩
  dependencies := []
  categories := []
  implementation c := Recipe.follow c (.map [("part", .create ball "ball" none [])])

/-- The registry in which such packs can be made. -/
def twinRegistry : Registry :=
  ⟨[("twin", ⟨"twin", [], twins, none, [], [], twinning.implementation⟩)]⟩

/-- Such a pack is made and returned. -/
def twinOnce : PipelineGraph :=
  (((empty.addInput "n" .int 0).addReturn 1 "twin").addOutput 2 "made" twins 0).addEdge
    (.returnValue 1 "twin") (.output 2 "made")

/-- The pipeline that makes such a pack, validated. -/
def twin : ValidatedPipeline := (twinOnce.validate twinRegistry).toOption.getD ⟨empty⟩

/-- The pieces of its unit. -/
def twinPieces : List Piece :=
  (unitPieces "twinning" twin twinRegistry .standard false).toOption.getD []

/-- Its unit. -/
def twinUnit (text : String) : LoadedUnit :=
  unitOf "twinning" text Settings.standard.runFunction [.blob, .operations, .progress, .scene] twinPieces

/-- The names of operations and types in the remarks of the unit are lines. -/
theorem lines_twin : twin.graph.Lines twinRegistry := .of_all (by decide +kernel) (by decide +kernel)

/-- The pipeline is compiled. -/
theorem exists_compiled_twin : ∃ text, twinOnce.Compiled twinRegistry .standard twin (twinUnit text) := by
  have built : twinOnce.Built := by
    unfold twinOnce addOutput addReturn addInput
    exact ⟨.addEdge _ _ (.addNode _ _ (.addNode _ _ (.addNode _ _ .empty))), by decide +kernel⟩
  have registered : twinRegistry.Built := .register twinning .empty rfl
  have valid : twinOnce.validate twinRegistry = .ok twin := eq_ok_of_isOk (by decide +kernel) _
  have made : unitPieces "twinning" twin twinRegistry .standard false = .ok twinPieces :=
    eq_ok_of_isOk (by decide +kernel) _
  exact exists_compiled built registered valid Settings.usable_standard lines_twin made
    (eq_ok_of_isOk (by decide +kernel) []) (eq_ok_of_isOk (by decide +kernel) []) (by decide +kernel)
    (by decide +kernel) (by decide +kernel)

/-- The host of such packs whose scene has a ball. -/
def twinHost : Host :=
  { Host.new twinRegistry [] with
    world := { World.empty with scene := (Scene.empty.addNode ball "shown" []).2 } }

/-- A parameter node that holds the ball of the scene as output. -/
def twinNode : Entries :=
  [("inputs", .map [("n", .int 0)]),
    ("outputs", .map [("made", .map [("part", .node ⟨"Ball1", ball⟩)])])]

/-- What goes through with a result has that result. -/
theorem eq_ok_of_toOption {ε α : Type} {x : Except ε α} {a : α} (h : x.toOption = some a) : x = .ok a := by
  cases x with
  | ok b => exact congrArg _ (Option.some.inj h)
  | error e => cases h

/-- The id of the node in a place of a value. -/
def heldId? (d : Datum) (path : List String) : Option String :=
  ((d.fields? path).bind Datum.node?).map NodeHandle.id

/-- Where the id of a node is found there is the node. -/
theorem exists_of_heldId? {d : Datum} {path : List String} {id : String}
    (h : heldId? d path = some id) : ∃ handle, d.fields? path = some (.node handle) ∧ handle.id = id := by
  unfold heldId? at h
  cases e : d.fields? path with
  | none => rw [e] at h; cases h
  | some part =>
    rw [e] at h
    cases part with
    | node handle => exact ⟨handle, rfl, Option.some.inj h⟩
    | _ => cases h

/-- Whether a type is that of packs with two fields of one name, of which one is a node. -/
def isTwins : DataType → Bool
  | .pack _ [(name, .node _), (name', .external _)] => name == "part" && name' == "part"
  | _ => false

/-- What has a node as its part fits the type of such packs. -/
theorem fits_of_isTwins {t : DataType} {d : Datum} {handle : NodeHandle} (twins : isTwins t = true)
    (h : d.fields? ["part"] = some (.node handle)) : Datum.Fits Datum.IsNodeOrUnit t d := by
  unfold isTwins at twins
  split at twins
  · obtain ⟨first, second⟩ := Bool.and_eq_true_iff.1 twins
    cases eq_of_beq first
    cases eq_of_beq second
    cases d with
    | map entries =>
      have found : Keyed.lookup "part" entries = some (.node handle) := by
        cases e : Keyed.lookup "part" entries with
        | none => simp [Datum.fields?, Datum.field?, e] at h
        | some part => simpa [Datum.fields?, Datum.field?, e] using h
      exact ⟨entries, rfl, ⟨_, found, .inr ⟨handle, rfl⟩⟩, ⟨_, found, trivial⟩, trivial⟩
    | node other => simp [Datum.fields?, Datum.field?] at h
    | _ => cases h
  · cases twins

/-- The part that is copied as it is goes over the node that the part of the same name was copied to:
an output that held the first ball holds another one afterwards. -/
theorem exists_overwritten : ∃ u d h' after handle, twinOnce.Compiled twinRegistry .standard twin u ∧
    twin.graph.orderedOutputs = .ok [.output 2 "made"] ∧
    twin.graph.RunsOn [(.input "n", .int 0)] twinNode ∧
    twinHost.runIn u [.int 0] (widgetMode none) = (.ok d, h') ∧
    twin.graph.ReturnFits [.output 2 "made"] d ∧
    (twinHost.onRun u twinNode none).1 = .ok after ∧
    ["part"] ∈ (twin.graph.slotType (.output 2 "made")).nodePaths ∧
    (held twinNode "outputs").fields? ["made", "part"] = some (.node ⟨"Ball1", ball⟩) ∧
    (held after "outputs").fields? ["made", "part"] = some (.node handle) ∧ handle.id ≠ "Ball1" := by
  obtain ⟨text, c⟩ := exists_compiled_twin
  let run := twinHost.runIn (twinUnit text) [.int 0] (widgetMode none)
  let answered := twinHost.onRun (twinUnit text) twinNode none
  -- the text of a unit has no part in its runs
  have through : (run.1.toOption.bind (heldId? · ["part"])) = some "Ball2" := by
    show ((twinHost.runIn (twinUnit "") [.int 0] (widgetMode none)).1.toOption.bind _) = _
    decide +kernel
  have overwritten : answered.1.toOption.bind (fun after => heldId? (held after "outputs")
      ["made", "part"]) = some "Ball2" := by
    show (twinHost.onRun (twinUnit "") twinNode none).1.toOption.bind _ = _
    decide +kernel
  have typed : isTwins (twin.graph.slotType (.output 2 "made")) = true := by decide +kernel
  have paths : (twin.graph.slotType (.output 2 "made")).nodePaths = [["part"]] := by decide +kernel
  have ordered : twin.graph.orderedOutputs = .ok [.output 2 "made"] :=
    (eq_ok_of_isOk (by decide +kernel) []).trans (congrArg _ (by decide +kernel))
  have runs : twin.graph.RunsOn [(.input "n", .int 0)] twinNode := by
    constructor
    · rintro entry m
      cases List.mem_singleton.1 m
      rfl
    · intro key m path place
      cases List.mem_singleton.1 m
      have nothing : (twin.graph.slotType (.input "n")).nodePaths = [] := by decide +kernel
      rw [nothing] at place
      cases place
  obtain ⟨d, e, found⟩ := Option.bind_eq_some_iff.1 through
  obtain ⟨after, e', found'⟩ := Option.bind_eq_some_iff.1 overwritten
  obtain ⟨made, part, -⟩ := exists_of_heldId? found
  obtain ⟨handle, part', named⟩ := exists_of_heldId? found'
  have ok : run = (.ok d, run.2) := Prod.ext (eq_ok_of_toOption e) rfl
  refine ⟨_, d, run.2, after, handle, c, ordered, runs, ok, ?_, eq_ok_of_toOption e', ?_, rfl, part', ?_⟩
  · intro key m
    cases List.mem_singleton.1 m
    exact ⟨d, rfl, fits_of_isTwins typed part⟩
  · rw [paths]
    exact List.mem_cons_self
  · rw [named]
    decide

end PipelineGraph

end Pipewright
