import Pipewright.Proofs.Unit.Called
import Pipewright.Proofs.Unit.Copying

/-! # Running a widget
The function of a unit that an interface calls runs the pipeline on what a parameter node holds,
copies the results to the outputs, and returns the parameter node with them. -/

namespace Pipewright

open Host (Environment Yields evalBlock evalExpr evalItems evalStmt callFunction functionResult)
open Script (Expr Function Stmt)

namespace PipelineGraph

/-! ## Calls of a widget -/

/-- What a parameter node holds under a name. -/
def held (node : Entries) (name : String) : Datum := (Keyed.lookup name node).getD .unit

/-- A pipeline can be run on what a parameter node holds: it holds the inputs, and the places of nodes
in them can be looked at. -/
structure RunsOn (g : PipelineGraph) (inputs : List (SlotKey × Datum)) (node : Entries) : Prop where
  /-- The inputs are those that the parameter node holds. -/
  given : ∀ entry ∈ inputs, (held node "inputs").fields? [entry.1.slot] = some entry.2
  /-- All places of nodes in them are there. -/
  there : ∀ key ∈ inputs.map Prod.fst, ∀ path ∈ (g.slotType key).nodePaths,
    ∃ part, (held node "inputs").fields? (key.slot :: path) = some part

/-- What a pipeline has returned fits the types of its outputs: there is a node or nothing in the
places of nodes. -/
def ReturnFits (g : PipelineGraph) (outputs : List SlotKey) (d : Datum) : Prop :=
  ∀ key ∈ outputs, ∃ part, d.fields? (sourceAccess outputs key).path = some part ∧
    Datum.Fits Datum.IsNodeOrUnit (g.slotType key) part

/-- What fits the types of outputs has a node or nothing wherever a node is copied from. -/
theorem ReturnFits.exists_source {g : PipelineGraph} {outputs : List SlotKey} {d : Datum}
    (h : g.ReturnFits outputs d) {key : SlotKey} (m : key ∈ outputs) {path : List String}
    (place : path ∈ (g.slotType key).nodePaths) :
    ∃ src, d.fields? ((sourceAccess outputs key).path ++ path) = some src ∧ src.IsNodeOrUnit := by
  obtain ⟨part, found, fits⟩ := h key m
  obtain ⟨src, leads, plain⟩ := Datum.Fits.exists_atNode _ fits path place
  exact ⟨src, by rw [Datum.fields?_append, found, Option.bind_some, leads], plain⟩

section OnRun

variable {g : PipelineGraph} {env : Environment} {pieces : List Piece} {piece widget : Piece}
  {name : String} {s : Settings} {inputs : List (SlotKey × Datum)} {outputs : List SlotKey}
  {steps : List Stmt} {returned : List Binding} {places : List Access} {scope : Entries}
  {before after : World} {callback : Progress.Callback} {node : Entries} {d o : Datum}

/-! ## Running the pipeline -/

/-- A call of the function that runs the pipeline comes to what the pipeline ends with. -/
theorem RunParts.yields_run (holds : env.Holds pieces) (m : piece ∈ pieces)
    (w : g.Wired env.registry) (built : env.registry.Built)
    (parts : g.RunParts env.registry name s piece (inputs.map Prod.fst) outputs steps returned places)
    {ending : Except Host.Halt Datum} (ends : g.EndsOnly env.registry inputs callback true places
      (returned.filterMap Binding.access?)
      (before.report callback "" 0 0 (Int64.ofNat g.pieces)) ending after)
    {arguments : List Expr} (depth : Nat)
    (h : Yields (evalItems env (callFunction env (depth + 2)) arguments) scope before
      (.ok (inputs.map Prod.snd ++ [Datum.progress callback])) scope before) :
    Yields (evalExpr env (callFunction env (depth + 2)) (.call s.runFunction arguments)) scope before
      (functionResult ending) scope after := by
  obtain ⟨own, found, parameters, same⟩ := parts.provides holds m (.reporting callback)
  obtain ⟨ending', after', called, finishes⟩ : g.YieldsEnd env.registry inputs callback true places
      (returned.filterMap Binding.access?) before (callFunction env (depth + 2) own
        (inputs.map Prod.snd ++ [Datum.progress callback])) scope before :=
    parts.yields_function holds m w built depth (.reporting callback) parameters same
  obtain ⟨rfl, rfl⟩ := ends ending' after' finishes
  refine .call_function h ?_ called
  rw [← found]
  simp [RunMode.function, Function.arity]

/-- What the function that runs the pipeline is given: the inputs that a parameter node holds, and the
callback. -/
def runArguments (inputs : List SlotKey) : List Expr :=
  inputs.map (fun key => (slotAccess "inputs" key).expr) ++ [.var callbackName]

/-- The statements that run the pipeline on what a parameter node holds. -/
def openingStmts (g : PipelineGraph) (run : String) (inputs : List SlotKey) : List Stmt :=
  [.declare "inputs" (some (.field (.var "parameter_node") "inputs")),
    .declare "outputs" (some (.field (.var "parameter_node") "outputs")),
    .declare "_keep" (some (.items ((keptAccesses g inputs).map Access.expr))),
    .declare "output_value" (some (.call run (runArguments inputs)))]

/-- The nodes in the inputs that a parameter node holds. -/
def keptNodes (g : PipelineGraph) (inputs : List SlotKey) (node : Entries) : List Datum :=
  (keptAccesses g inputs).map fun a => ((held node "inputs").fields? a.path).getD .unit

/-- The variables of the function that runs a widget. -/
def onRunScope (callback : Progress.Callback) (node : Entries) : Entries :=
  [(callbackName, .progress callback), ("parameter_node", .map node)]

/-- The variables of the function that runs a widget, when it has noted the nodes in the inputs. -/
def notedScope (callback : Progress.Callback) (node : Entries) (keep : List Datum) : Entries :=
  ("_keep", .array keep) :: ("outputs", held node "outputs") :: ("inputs", held node "inputs") ::
    onRunScope callback node

/-- The variables of the function that runs a widget, when it has run the pipeline. -/
def resultScope (callback : Progress.Callback) (node : Entries) (keep : List Datum) (d o : Datum) :
    Entries :=
  Host.widgetScope d keep (("inputs", held node "inputs") :: onRunScope callback node) o

/-- Where the inputs are in scope, the nodes in them can be noted. -/
theorem RunsOn.yields_kept (runs : g.RunsOn inputs node) (call : Host.Caller)
    (shown : Keyed.lookup "inputs" scope = some (held node "inputs")) :
    Yields (evalExpr env call (.items ((keptAccesses g (inputs.map Prod.fst)).map Access.expr))) scope
      before (.ok (.array (keptNodes g (inputs.map Prod.fst) node))) scope before := by
  refine Host.yields_accessItems (fun a m => ?_) shown fun a m => ?_
  · rw [keptAccesses_eq] at m
    obtain ⟨key, -, m⟩ := List.mem_flatMap.1 m
    obtain ⟨path, -, rfl⟩ := List.mem_map.1 m
    rfl
  · rw [keptAccesses_eq] at m
    obtain ⟨key, there, m⟩ := List.mem_flatMap.1 m
    obtain ⟨path, place, rfl⟩ := List.mem_map.1 m
    exact runs.there key there path place

/-- Where the inputs and a callback are in scope, the arguments of the pipeline are the inputs with
the callback behind them. -/
theorem RunsOn.yields_arguments (runs : g.RunsOn inputs node) (call : Host.Caller)
    (shown : Keyed.lookup "inputs" scope = some (held node "inputs"))
    (reports : Keyed.lookup callbackName scope = some (.progress callback)) :
    Yields (evalItems env call (runArguments (inputs.map Prod.fst))) scope before
      (.ok (inputs.map Prod.snd ++ [Datum.progress callback])) scope before := by
  have values : inputs.map Prod.snd = (inputs.map Prod.fst).map fun key =>
      ((held node "inputs").fields? (slotAccess "inputs" key).path).getD .unit := by
    rw [List.map_map]
    refine List.map_congr_left fun entry m => ?_
    rw [Function.comp_apply, slotAccess, runs.given entry m, Option.getD_some]
  rw [values]
  refine Host.yields_accesses (fun _ _ => rfl) shown (fun key m => ?_)
    (.items_cons (.var reports) .items_nil)
  obtain ⟨entry, there, rfl⟩ := List.mem_map.1 m
  exact ⟨_, runs.given entry there⟩

/-- The nodes in the inputs are noted before the pipeline is run. -/
theorem RunsOn.yields_opening (runs : g.RunsOn inputs node) (call : Host.Caller) {run : String}
    {r : Except Host.Halt Datum} {last : Entries}
    (h : Yields (evalStmt env call
        (.declare "output_value" (some (.call run (runArguments (inputs.map Prod.fst))))))
      (notedScope callback node (keptNodes g (inputs.map Prod.fst) node)) before r last after) :
    Yields (evalBlock env call .unit (openingStmts g run (inputs.map Prod.fst)))
      (onRunScope callback node) before r last after := by
  have inputs' : Yields (evalStmt env call
      (.declare "inputs" (some (.field (.var "parameter_node") "inputs"))))
      (onRunScope callback node) before (.ok .unit)
      (("inputs", held node "inputs") :: onRunScope callback node) before :=
    .declared (.field (.var rfl) rfl)
  have outputs' : Yields (evalStmt env call
      (.declare "outputs" (some (.field (.var "parameter_node") "outputs"))))
      (("inputs", held node "inputs") :: onRunScope callback node) before (.ok .unit)
      (("outputs", held node "outputs") :: ("inputs", held node "inputs") ::
        onRunScope callback node) before :=
    .declared (.field (.var rfl) rfl)
  have keep : Yields (evalStmt env call (.declare "_keep"
      (some (.items ((keptAccesses g (inputs.map Prod.fst)).map Access.expr)))))
      (("outputs", held node "outputs") :: ("inputs", held node "inputs") ::
        onRunScope callback node) before (.ok .unit)
      (notedScope callback node (keptNodes g (inputs.map Prod.fst) node)) before :=
    .declared (runs.yields_kept _ rfl)
  exact .block_cons rfl inputs' (.block_cons rfl outputs' (.block_cons rfl keep
    (.block_single rfl h)))

/-! ## Adopting the results -/

/-- What a widget comes to when its pipeline has returned something, and the nodes that are left. -/
def adopted (g : PipelineGraph) (inputs outputs : List SlotKey) (node : Entries) (d : Datum)
    (scene : Scene Entries) : Except Host.Halt Datum × Scene Entries :=
  let copies := allCopies g outputs
  match OutputCopy.performAll d copies (held node "outputs") scene with
  | (.ok o, scene) => (.ok (.map (Keyed.insert "outputs" o node)),
    scene.drop (keptNodes g inputs node ++ OutputCopy.targets copies o)
      (OutputCopy.sources copies d))
  | (.error halt, scene) => (.error (OutputCopy.failure copies halt),
    scene.drop (keptNodes g inputs node) (OutputCopy.sources copies d))

/-- The world of a widget that has come to its end. -/
def adoptedWorld (g : PipelineGraph) (inputs outputs : List SlotKey) (node : Entries) (d : Datum)
    (w : World) : World := ⟨(adopted g inputs outputs node d w.scene).2, w.board⟩

/-- What a widget comes to does not leave a function in another way than its value does. -/
theorem functionResult_adopted (g : PipelineGraph) (inputs outputs : List SlotKey) (node : Entries)
    (d : Datum) (scene : Scene Entries) :
    functionResult (adopted g inputs outputs node d scene).1 =
      (adopted g inputs outputs node d scene).1 := by
  unfold adopted
  simp only
  split
  · rfl
  · next halt scene' failed =>
    obtain ⟨seen, caught⟩ := OutputCopy.exists_caught_of_performAll (congrArg Prod.fst failed)
    simp only [OutputCopy.failure, caught, Option.map_some, Option.getD_some]
    split
    · cases halt with
      | thrown d => rfl
      | fault => rfl
      | _ => cases caught
    · rfl

/-- The statements behind the copies: the parameter node gets the outputs and is returned. -/
def adoptingStmts : List Stmt :=
  [.assign ⟨"parameter_node", [.field "outputs"]⟩ .set (.var "outputs"),
    .value (.var "parameter_node")]

/-- The parameter node gets the outputs. -/
theorem yields_adoptingStmts {call : Host.Caller} {last : Entries} {w : World} (v : Datum)
    (there : Keyed.lookup "outputs" last = some o)
    (there' : Keyed.lookup "parameter_node" last = some (.map node)) :
    ∃ inner, Yields (evalBlock env call v adoptingStmts) last w
      (.ok (.map (Keyed.insert "outputs" o node))) inner w := by
  have leads : Yields (Host.evalPath env call [.field "outputs"]) last w
      (.ok [.field "outputs"]) last w := (Yields.pure []).map _
  have assigned : Yields (evalStmt env call (.assign ⟨"parameter_node", [.field "outputs"]⟩ .set
      (.var "outputs"))) last w (.ok .unit)
      (Keyed.modify "parameter_node" (fun _ => .map (Keyed.insert "outputs" o node)) last) w :=
    .assigned (.var there) leads there' rfl
  have changed : Keyed.lookup "parameter_node"
      (Keyed.modify "parameter_node" (fun _ => .map (Keyed.insert "outputs" o node)) last) =
      some (.map (Keyed.insert "outputs" o node)) := by
    rw [Keyed.lookup_modify_self, there']
    rfl
  exact ⟨_, .block_cons rfl assigned (.block_single rfl (.value (.var changed)))⟩

/-- The body of the function that runs a widget comes to what becomes of the results. -/
theorem yields_adopting (h : env.Copies) (fits : g.ReturnFits outputs d) (keep : List SlotKey)
    (depth : Nat) (v : Datum) :
    ∃ inner, Yields (evalBlock env (callFunction env depth) v
        (copyStmts (allCopies g outputs) ++ adoptingStmts))
      (resultScope callback node (keptNodes g keep node) d (held node "outputs")) after
      (adopted g keep outputs node d after.scene).1 inner
      (adoptedWorld g keep outputs node d after) := by
  have based := based_allCopies g outputs
  have found : ∀ c ∈ allCopies g outputs, c.isNode = true →
      ∃ src, d.fields? c.source.path = some src := by
    intro c m isNode
    obtain ⟨key, there, path, taken, -, place⟩ := exists_of_mem_allCopies m
    obtain ⟨src, leads, -⟩ := fits.exists_source there (place isNode)
    exact ⟨src, taken ▸ leads⟩
  unfold adoptedWorld adopted
  simp only
  split
  · next o scene made =>
    -- which scope is left depends on whether a node is copied
    obtain ⟨v', keep', last, shape, copied⟩ : ∃ v' keep' last,
        (last = Host.widgetScope d keep' (("inputs", held node "inputs") ::
            onRunScope callback node) o ∨
          last = Host.releasingScope (allCopies g outputs) d keep'
            (("inputs", held node "inputs") :: onRunScope callback node) o) ∧
        Yields (evalBlock env (callFunction env depth) v (copyStmts (allCopies g outputs)))
          (resultScope callback node (keptNodes g keep node) d (held node "outputs")) after (.ok v')
          last ⟨scene.drop (keptNodes g keep node ++ OutputCopy.targets (allCopies g outputs) o)
            (OutputCopy.sources (allCopies g outputs) d), after.board⟩ :=
      Host.yields_copyStmts h based (aligned_allCopies g outputs) found made v
    have shown : Keyed.lookup "outputs" last = some o := by rcases shape with rfl | rfl <;> rfl
    have shown' : Keyed.lookup "parameter_node" last = some (.map node) := by
      rcases shape with rfl | rfl <;> rfl
    obtain ⟨inner, adopted⟩ := yields_adoptingStmts v' shown shown'
    exact ⟨inner, copied.block_append adopted⟩
  · next halt scene failed =>
    obtain ⟨last, copied⟩ : ∃ last,
        Yields (evalBlock env (callFunction env depth) v (copyStmts (allCopies g outputs)))
          (resultScope callback node (keptNodes g keep node) d (held node "outputs")) after
          (.error (OutputCopy.failure (allCopies g outputs) halt)) last
          ⟨scene.drop (keptNodes g keep node) (OutputCopy.sources (allCopies g outputs) d),
            after.board⟩ :=
      Host.yields_copyStmts_halt h based found failed v
    exact ⟨last, copied.block_append_halt⟩

/-! ## The functions that run a widget -/

/-- The function that runs a widget with a progress callback. -/
def onRunFunction (g : PipelineGraph) (run : String) (inputs outputs : List SlotKey) : Function :=
  ⟨"on_run", ["parameter_node", callbackName],
    openingStmts g run inputs ++ (copyStmts (allCopies g outputs) ++ adoptingStmts)⟩

/-- The function that runs a widget without a progress callback makes one that nobody looks at. -/
def quietFunction : Function :=
  ⟨"on_run", ["parameter_node"],
    [.value (.call "on_run" [.var "parameter_node", HostModule.progress.call "noop" []])]⟩

/-- These are the functions that run a widget. -/
theorem widgetFunctions_eq (g : PipelineGraph) (run : String) (inputs outputs : List SlotKey) :
    widgetFunctions g run inputs outputs =
      [quietFunction, onRunFunction g run inputs outputs] := by
  unfold widgetFunctions onRunFunction
  rw [← List.append_assoc]
  rfl

/-- A program holds the pieces of a unit, of which one runs the pipeline and another one is the
widget. -/
structure HoldsWidget (g : PipelineGraph) (env : Environment) (name : String) (s : Settings)
    (pieces : List Piece) (piece widget : Piece) (inputs outputs : List SlotKey)
    (steps : List Stmt) (returned : List Binding) (places : List Access) : Prop where
  /-- The program has the functions of the pieces. -/
  holds : env.Holds pieces
  /-- One of them runs the pipeline. -/
  runs : piece ∈ pieces
  /-- Another one is the widget. -/
  shows : widget ∈ pieces
  /-- The one that runs the pipeline was generated. -/
  parts : g.RunParts env.registry name s piece inputs outputs steps returned places
  /-- The widget has its functions. -/
  functions : widget.functions = [copyFunction, holdsFunction, releaseFunction,
    setupFunction name] ++ widgetFunctions g s.runFunction inputs outputs
  /-- Arrays grow as the host says. -/
  push : env.Lacks "push"

/-- The way in which a widget runs its pipeline. -/
def widgetMode : Option Progress.Callback → RunMode
  | none => .plain
  | some callback => .reporting callback

/-- A widget removes nodes. -/
theorem removes_widgetMode (callback? : Option Progress.Callback) :
    (widgetMode callback?).removes = true := by
  cases callback? <;> rfl

namespace HoldsWidget

variable (c : g.HoldsWidget env name s pieces piece widget (inputs.map Prod.fst) outputs steps
  returned places)

include c

/-- The program provides the functions of the widget. -/
theorem provides : ∀ f ∈ [copyFunction, holdsFunction, releaseFunction, setupFunction name,
    quietFunction, onRunFunction g s.runFunction (inputs.map Prod.fst) outputs],
    env.Provides f := by
  intro f there
  refine c.holds.provides f (List.mem_flatMap.2 ⟨widget, c.shows, ?_⟩)
  rwa [c.functions, widgetFunctions_eq]

/-- The program provides what the copies are made with. -/
theorem copies : env.Copies where
  typeOf := c.holds.lacks _ (by decide)
  push := c.push
  holds := c.provides holdsFunction (by simp)
  copy := c.provides copyFunction (by simp)
  release := c.provides releaseFunction (by simp)

/-- A widget comes to what the body of its function comes to, with a progress callback or without
one. -/
theorem exists_called {callback? : Option Progress.Callback} {r : Except Host.Halt Datum}
    (plain : functionResult r = r)
    (body : ∀ depth, ∃ inner, Yields (evalBlock env (callFunction env (depth + 2)) .unit
        (onRunFunction g s.runFunction (inputs.map Prod.fst) outputs).body)
      (onRunScope ((widgetMode callback?).start before).1 node)
      ((widgetMode callback?).start before).2 r inner after) :
    ∃ own, env.program.function? "on_run"
        (Datum.map node :: (callback?.map Datum.progress).toList).length = some own ∧
      Yields (callFunction env Host.maxCalls own
        (Datum.map node :: (callback?.map Datum.progress).toList)) [] before r [] after := by
  obtain ⟨own, found, parameters, same⟩ :=
    c.provides (onRunFunction g s.runFunction (inputs.map Prod.fst) outputs) (by simp)
  have called : ∀ depth scope, Yields (callFunction env (depth + 3) own
      [.map node, .progress ((widgetMode callback?).start before).1]) scope
      ((widgetMode callback?).start before).2 r scope after := by
    intro depth scope
    obtain ⟨inner, body⟩ := body depth
    rw [← plain]
    exact .callFunction_succ parameters same body
  cases callback? with
  | some callback => exact ⟨own, found, called 61 []⟩
  | none =>
    -- without a callback the shorter function calls the other one with a quiet callback
    obtain ⟨quiet, found', parameters', same'⟩ := c.provides quietFunction (by simp)
    refine ⟨quiet, found', ?_⟩
    have arguments : Yields (evalItems env (callFunction env 63)
        [.var "parameter_node", HostModule.progress.call "noop" []])
        [("parameter_node", .map node)] before
        (.ok [.map node, .progress ((widgetMode none).start before).1])
        [("parameter_node", .map node)] ((widgetMode none).start before).2 :=
      .items_cons (.var rfl) (.items_cons (.moduleCall .items_nil Host.yields_noop) .items_nil)
    have again : Yields (callFunction env 64 quiet [.map node]) [] before (functionResult r) []
        after :=
      .callFunction_succ parameters' same'
        (.block_single rfl (.value (.call_function arguments found (called 60 _))))
    rwa [plain] at again

variable (w : g.Wired env.registry) (built : env.registry.Built) (runs : g.RunsOn inputs node)

include w built runs

/-- Where the pipeline returns something that fits, the function that runs a widget comes to what
becomes of it. -/
theorem yields_adopted (ends : g.EndsOnly env.registry inputs callback true places
      (returned.filterMap Binding.access?)
      (before.report callback "" 0 0 (Int64.ofNat g.pieces)) (.ok d) after)
    (fits : g.ReturnFits outputs d) (depth : Nat) :
    ∃ inner, Yields (evalBlock env (callFunction env (depth + 2)) .unit
        (onRunFunction g s.runFunction (inputs.map Prod.fst) outputs).body)
      (onRunScope callback node) before
      (adopted g (inputs.map Prod.fst) outputs node d after.scene).1 inner
      (adoptedWorld g (inputs.map Prod.fst) outputs node d after) := by
  have opening : Yields (evalBlock env (callFunction env (depth + 2)) .unit
      (openingStmts g s.runFunction (inputs.map Prod.fst))) (onRunScope callback node) before
      (.ok .unit) (resultScope callback node (keptNodes g (inputs.map Prod.fst) node) d
        (held node "outputs")) after :=
    runs.yields_opening _ (.declared (c.parts.yields_run c.holds c.runs w built ends depth
      (runs.yields_arguments _ rfl rfl)))
  obtain ⟨inner, adopting⟩ : ∃ inner, Yields (evalBlock env (callFunction env (depth + 2)) .unit
      (copyStmts (allCopies g outputs) ++ adoptingStmts))
      (resultScope callback node (keptNodes g (inputs.map Prod.fst) node) d (held node "outputs"))
      after (adopted g (inputs.map Prod.fst) outputs node d after.scene).1 inner
      (adoptedWorld g (inputs.map Prod.fst) outputs node d after) :=
    yields_adopting c.copies fits _ (depth + 2) .unit
  exact ⟨inner, opening.block_append adopting⟩

/-- Where the pipeline raises something, the function that runs a widget does, before anything is
copied. -/
theorem yields_thrown (ends : g.EndsOnly env.registry inputs callback true places
      (returned.filterMap Binding.access?)
      (before.report callback "" 0 0 (Int64.ofNat g.pieces)) (.error (.thrown d)) after)
    (depth : Nat) :
    ∃ inner, Yields (evalBlock env (callFunction env (depth + 2)) .unit
        (onRunFunction g s.runFunction (inputs.map Prod.fst) outputs).body)
      (onRunScope callback node) before (.error (.thrown d)) inner after := by
  have opening : Yields (evalBlock env (callFunction env (depth + 2)) .unit
      (openingStmts g s.runFunction (inputs.map Prod.fst))) (onRunScope callback node) before
      (.error (.thrown d)) (notedScope callback node (keptNodes g (inputs.map Prod.fst) node))
      after :=
    runs.yields_opening _ (.declared_halt (c.parts.yields_run c.holds c.runs w built ends depth
      (runs.yields_arguments _ rfl rfl)))
  exact ⟨_, opening.block_append_halt⟩

end HoldsWidget

end OnRun

end PipelineGraph

end Pipewright
