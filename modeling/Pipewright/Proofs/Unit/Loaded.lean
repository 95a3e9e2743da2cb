import Pipewright.Host.Basic
import Pipewright.Operation.Recipe
import Pipewright.Proofs.Host.Layout
import Pipewright.Proofs.Unit.Source

/-! # Loaded units
The program of a loaded unit provides the functions of the unit's pieces and hides no function of the
host. Outside its functions it only makes modules of the host known. -/

namespace Pipewright

open Host (Environment Yields evalBlock evalStmt callFunction)
open Script (Function Stmt importStmt isIdentifier isLine)

variable {name : String} {p : ValidatedPipeline} {r : Registry} {s : Settings} {g : PipelineGraph}
  {env : Environment} {pieces : List Piece}

/-! ## Names of functions -/

/-- The names of the functions that are named alike in every unit. -/
def fixedNames : List String :=
  ["module_info", "_member", "_node_referenced_by", "_copy_node_output", "_holds_node",
    "_release_nodes", "setup", "on_run"]

/-- No function of any unit is named so, but for the one that runs it. -/
def IsForeign (function : String) : Prop :=
  function ∉ fixedNames ∧ ∀ suffix ∈ packEndings, ¬ suffix.toList <:+ function.toList

instance (function : String) : Decidable (IsForeign function) := inferInstanceAs (Decidable (_ ∧ _))

/-- The names of functions of the host are foreign to units. -/
theorem isForeign_of_mem_hostFunctions : ∀ function ∈ hostFunctions, IsForeign function := by
  decide +kernel

/-- A fixed name is not foreign. -/
theorem not_isForeign_fixed {function : String} (fixed : function ∈ fixedNames) :
    ¬ IsForeign function := fun foreign => foreign.1 fixed

/-- The name of a function that returns a pack of a unit is not foreign. -/
theorem not_isForeign_pack {suffix : String} (ending : suffix ∈ packEndings) :
    ¬ IsForeign (name ++ suffix) := by
  intro foreign
  refine foreign.2 _ ending ?_
  rw [String.toList_append]
  exact List.suffix_append _ _

/-- The functions of the piece that runs a pipeline are named as in every unit, or for a pack, but
for those that run it. -/
theorem PipelineGraph.RunParts.name_of_mem {piece : Piece} {inputs outputs : List SlotKey}
    {steps : List Stmt} {returned : List Binding} {places : List Access}
    (parts : g.RunParts r name s piece inputs outputs steps returned places) :
    ∀ f ∈ piece.functions, f.name = s.runFunction ∨ ¬ IsForeign f.name := by
  intro f m
  rw [parts.functions, List.mem_cons, List.mem_cons, List.mem_append] at m
  rcases m with rfl | rfl | constructor | run
  · exact .inr (not_isForeign_fixed (by decide))
  · exact .inr (not_isForeign_fixed (by decide))
  · split at constructor
    · cases List.mem_singleton.1 constructor
      exact .inr (not_isForeign_pack (by decide))
    · cases constructor
  · left
    unfold runFunctions at run
    simp only [List.mem_cons, List.not_mem_nil, or_false] at run
    rcases run with rfl | rfl | rfl <;> rfl

/-- The functions of a unit are named as in every unit, or for a pack, but for those that run its
pipeline. -/
theorem name_of_unitPieces {hasIcon : Bool} (h : unitPieces name p r s hasIcon = .ok pieces) :
    ∀ f ∈ pieces.flatMap Piece.functions, f.name = s.runFunction ∨ ¬ IsForeign f.name := by
  obtain ⟨-, parameters, run, widget, first, second, third, rfl⟩ := exists_unitPieces h
  intro f m
  simp only [List.mem_flatMap, List.mem_cons, List.not_mem_nil, or_false] at m
  -- one case for each piece: metadata, parameters, the pipeline, and the widget
  obtain ⟨piece, rfl | rfl | rfl | rfl, m⟩ := m
  · cases List.mem_singleton.1 m
    exact .inr (not_isForeign_fixed (by decide : "module_info" ∈ fixedNames))
  · obtain ⟨inputs, outputs, -, -, rfl⟩ := exists_parameterPiece first
    simp only [Piece.functions, List.filterMap_cons, Item.function?, List.filterMap_nil,
      List.mem_cons, List.not_mem_nil, or_false] at m
    right
    rcases m with rfl | rfl | rfl
    · exact not_isForeign_pack (by decide : "Inputs" ∈ packEndings)
    · exact not_isForeign_pack (by decide : "Outputs" ∈ packEndings)
    · exact not_isForeign_pack (by decide : "ParameterNode" ∈ packEndings)
  · obtain ⟨g⟩ := p
    obtain ⟨inputs, outputs, steps, returned, places, parts⟩ := PipelineGraph.exists_runParts second
    exact parts.name_of_mem f m
  · obtain ⟨inputs, outputs, -, -, rfl⟩ := exists_widgetPiece third
    right
    unfold Piece.functions at m
    rw [List.filterMap_cons, Item.function?, PipelineGraph.filterMap_function?,
      List.mem_append] at m
    refine not_isForeign_fixed ?_
    rcases m with m | m
    · rw [List.mem_cons, List.mem_cons, List.mem_cons, List.mem_singleton] at m
      rcases m with rfl | rfl | rfl | rfl
      · decide
      · decide
      · decide
      · exact (by decide : "setup" ∈ fixedNames)
    · unfold widgetFunctions at m
      simp only [List.mem_cons, List.not_mem_nil, or_false] at m
      rcases m with rfl | rfl <;> exact (by decide : "on_run" ∈ fixedNames)

/-- No function of a unit has a foreign name, unless the one that runs it has. -/
theorem name_ne_of_isForeign {hasIcon : Bool} {function : String}
    (h : unitPieces name p r s hasIcon = .ok pieces) (foreign : IsForeign function)
    (other : s.runFunction ≠ function) : ∀ f ∈ pieces.flatMap Piece.functions, f.name ≠ function := by
  rintro f m rfl
  rcases name_of_unitPieces h f m with run | own
  · exact other run.symm
  · exact own foreign

/-! ## What a program provides -/

/-- The program of an environment is that of a unit with some pieces. -/
structure Host.Environment.Holds (env : Environment) (pieces : List Piece) : Prop where
  /-- It provides the functions of the pieces. -/
  provides : ∀ f ∈ pieces.flatMap Piece.functions, env.Provides f
  /-- It has no functions of other names. -/
  only : ∀ function, (∀ f ∈ pieces.flatMap Piece.functions, f.name ≠ function) → env.Lacks function
  /-- It hides no function of the host. -/
  lacks : ∀ function ∈ hostFunctions, env.Lacks function
  /-- Outside its functions it makes modules of the host known. -/
  imports : ∃ modules : List HostModule,
    env.program.body = (modules.map HostModule.name).map importStmt

/-- The functions of the host that the statements of steps call are not hidden. -/
theorem Host.Environment.Holds.calls (h : env.Holds pieces) : env.Calls where
  parse := h.lacks _ (by decide)
  report := h.lacks _ (by decide)
  sub := h.lacks _ (by decide)
  invoke := h.lacks _ (by decide)

/-- The program of a unit is held by its environment: what it was generated from is what it does. -/
theorem holds_of_load {hasIcon : Bool} {text run : String} {u : LoadedUnit} (w : g.Wired r)
    (built : r.Built) (usable : s.Usable) (lines : g.Lines r)
    (h : unitSource name ⟨g⟩ r s hasIcon = .ok text) (load : LoadedUnit.load name text run = .ok u)
    (classes : List NodeClass) :
    ∃ pieces, unitPieces name ⟨g⟩ r s hasIcon = .ok pieces ∧
      Environment.Holds ⟨r, classes, u.program⟩ pieces := by
  unfold LoadedUnit.load at load
  cases read : Script.Program.ofText? text with
  | none =>
    rw [read] at load
    cases load
  | some program =>
    rw [read] at load
    cases load
    -- the text is read as the program that it was written from, without its layout
    obtain ⟨pieces, modules, generated, e, distinct⟩ := exists_program w built usable lines h read
    have only : ∀ function, (∀ f ∈ pieces.flatMap Piece.functions, f.name ≠ function) →
        Environment.Lacks ⟨r, classes, program⟩ function := by
      intro function others arity
      refine List.find?_eq_none.2 fun f m => ?_
      rw [e] at m
      obtain ⟨f', m', rfl⟩ := List.mem_map.1 m
      simp [others f' m']
    refine ⟨pieces, generated, fun f m => .of_flat ?_, only, fun function known => ?_, modules, ?_⟩
    · have there : f.flat ∈ program.functions := by
        rw [e]
        exact List.mem_map_of_mem m
      exact distinct.function?_eq there
    · exact only _ (name_ne_of_isForeign generated (isForeign_of_mem_hostFunctions _ known)
        fun same => usable.free (same ▸ known))
    · rw [e]

/-! ## Units of pipelines -/

/-- A unit was generated from a pipeline that was built and is valid, and was loaded. Its settings can
be used, and no name in its remarks breaks their lines. -/
structure PipelineGraph.Compiled (g : PipelineGraph) (r : Registry) (s : Settings)
    (p : ValidatedPipeline) (u : LoadedUnit) : Prop where
  /-- The pipeline was built. -/
  built : g.Built
  /-- The operations were registered one by one. -/
  registered : r.Built
  /-- The pipeline is valid. -/
  valid : g.validate r = .ok p
  /-- Units can be generated with the settings. -/
  usable : s.Usable
  /-- The names in remarks are lines. -/
  lines : p.graph.Lines r
  /-- The unit was loaded from the text that was generated. -/
  loaded : ∃ name hasIcon text, unitSource name p r s hasIcon = .ok text ∧
    LoadedUnit.load name text s.runFunction = .ok u

namespace PipelineGraph.Compiled

variable {u : LoadedUnit}

/-- The steps of the pipeline are wired. -/
theorem wired (c : g.Compiled r s p u) : p.graph.Wired r := wired_of_validate c.built c.valid

/-- The program of the unit is that of the pieces of the pipeline. -/
theorem exists_holds (c : g.Compiled r s p u) (classes : List NodeClass) :
    ∃ name hasIcon pieces, unitPieces name p r s hasIcon = .ok pieces ∧
      Environment.Holds ⟨r, classes, u.program⟩ pieces := by
  obtain ⟨name, hasIcon, text, generated, load⟩ := c.loaded
  obtain ⟨pieces, made, holds⟩ :=
    holds_of_load c.wired c.registered c.usable c.lines generated load classes
  exact ⟨name, hasIcon, pieces, made, holds⟩

/-- The unit knows the function that runs it. -/
theorem runFunction_eq (c : g.Compiled r s p u) : u.runFunction = s.runFunction := by
  obtain ⟨name, hasIcon, text, -, load⟩ := c.loaded
  unfold LoadedUnit.load at load
  split at load
  · cases load
    rfl
  · cases load

end PipelineGraph.Compiled

/-- The unit that is loaded under a name from the functions of some pieces and lines that make modules
known. -/
def unitOf (name text run : String) (modules : List HostModule) (pieces : List Piece) : LoadedUnit :=
  ⟨name, text, ⟨(pieces.flatMap Piece.functions).map Function.flat,
    (modules.map HostModule.name).map importStmt⟩, run⟩

/-- A pipeline is compiled if the tokens of its unit are a program and all words have a letter before
their first digit. -/
theorem PipelineGraph.exists_compiled {hasIcon : Bool} {modules : List HostModule}
    {inputs outputs : List SlotKey} (h : g.Built) (built : r.Built) (valid : g.validate r = .ok p)
    (usable : s.Usable) (lines : p.graph.Lines r) (made : unitPieces name p r s hasIcon = .ok pieces)
    (ordered : p.graph.orderedInputs = .ok inputs) (ordered' : p.graph.orderedOutputs = .ok outputs)
    (needed : Keyed.distinct (((p.graph.neededModules (inputs ++ outputs)).filter
      (· ≠ .types)).map HostModule.name) = modules.map HostModule.name)
    (named : (unitTokens modules pieces).all Script.Token.isNamed = true)
    (reads : (Script.Program.ofTokens? (unitTokens modules pieces)).isSome = true) :
    ∃ text, g.Compiled r s p (unitOf name text s.runFunction modules pieces) := by
  have legible := isLegible_unitPieces (wired_of_validate h valid) built usable lines made
  have cleaned := (cleanImports_unitPieces ordered ordered' made).trans (importLines_eq needed)
  have lexes := lexes_assemble (exists_unitPieces made).1 usable legible cleaned
  obtain ⟨program, reads⟩ := Option.isSome_iff_exists.1 reads
  have read : Script.Program.ofText? (assemble name s pieces) = some program := by
    unfold Script.Program.ofText?
    rw [lexes.tokens?_eq_some named]
    exact reads
  have functions : ∀ f ∈ pieces.flatMap Piece.functions, f.isLegible = true := by
    intro f m
    obtain ⟨piece, there, m⟩ := List.mem_flatMap.1 m
    exact isLegible_of_mem_functions (legible piece there) f m
  have generated : unitSource name p r s hasIcon = .ok (assemble name s pieces) := by
    unfold unitSource
    rw [made]
    rfl
  have load : LoadedUnit.load name (assemble name s pieces) s.runFunction =
      .ok (unitOf name (assemble name s pieces) s.runFunction modules pieces) := by
    unfold LoadedUnit.load
    rw [read, (Script.ofText?_eq functions lexes read).1]
    rfl
  exact ⟨_, h, built, valid, usable, lines, name, hasIcon, _, generated, load⟩

/-! ## A pipeline that is compiled -/

namespace PipelineGraph

/-- The names in the remarks of a unit are lines if those of all operations and of the types at both
ends are. -/
theorem Lines.of_all (operations : ∀ entry ∈ r.operations, isLine entry.2.name = true)
    (types : ∀ key ∈ g.keys, key.operation = none →
      (g.datatype? key).all (fun t => isLine t.display) = true) : g.Lines r where
  operations := by
    rintro i o ⟨_, _, _, operation, _, found⟩
    exact operations _ (Keyed.mem_of_lookup found)
  types := by
    intro key m none t typed
    have line := types key m none
    rwa [typed] at line

/-- A class of balls. -/
def ball : NodeClass := .derived "Ball" .root

/-- A class of boxes. -/
def box : NodeClass := .derived "Box" .root

/-- Making a ball. -/
def balling : Registration where
  name := "ball"
  signature := ⟨[], some (.node ball)⟩
  dependencies := []
  categories := []
  implementation c := Recipe.follow c (.create ball "ball" none [])

/-- Putting a ball into a new box. -/
def boxing : Registration where
  name := "box"
  signature := ⟨[("content", some (.node ball))], some (.node box)⟩
  dependencies := []
  categories := []
  implementation c := Recipe.follow c (.create box "box" none [("content", "content")])

/-- The registry in which balls can be made and be put into boxes. -/
def boxes : Registry :=
  ⟨[("ball", ⟨"ball", [], .node ball, none, [], [], balling.implementation⟩),
    ("box", ⟨"box", [("content", .node ball)], .node box, none, [], [], boxing.implementation⟩)]⟩

/-- Two balls are made; the first one is put into a box, which is returned. -/
def boxedOnce : PipelineGraph :=
  let slots := (((((empty.addInput "n" .int 0).addReturn 1 "ball").addReturn 2 "ball").addParameter
    3 "box" "content").addReturn 3 "box").addOutput 4 "out" (.node box) 0
  (slots.addEdge (.returnValue 1 "ball") (.parameter 3 "box" "content")).addEdge
    (.returnValue 3 "box") (.output 4 "out")

/-- The pipeline in which one of two balls is put into a box, validated. -/
def boxed : ValidatedPipeline := (boxedOnce.validate boxes).toOption.getD ⟨empty⟩

/-- The pieces of its unit. -/
def boxedPieces : List Piece :=
  (unitPieces "boxing" boxed boxes .standard false).toOption.getD []

/-- Its unit. -/
def boxedUnit (text : String) : LoadedUnit :=
  unitOf "boxing" text Settings.standard.runFunction [.operations, .progress, .scene] boxedPieces

/-- The names of operations and types in the remarks of the unit are lines. -/
theorem lines_boxed : boxed.graph.Lines boxes := .of_all (by decide +kernel) (by decide +kernel)

/-- The pipeline is compiled. -/
theorem exists_compiled_boxed : ∃ text, boxedOnce.Compiled boxes .standard boxed (boxedUnit text) := by
  have built : boxedOnce.Built := by
    unfold boxedOnce addOutput addReturn addParameter addInput
    exact ⟨.addEdge _ _ (.addEdge _ _ (.addNode _ _ (.addNode _ _ (.addNode _ _ (.addNode _ _
      (.addNode _ _ (.addNode _ _ .empty))))))), by decide +kernel⟩
  have registered : boxes.Built := .register boxing (.register balling .empty rfl) rfl
  have valid : boxedOnce.validate boxes = .ok boxed := eq_ok_of_isOk (by decide +kernel) _
  have made : unitPieces "boxing" boxed boxes .standard false = .ok boxedPieces :=
    eq_ok_of_isOk (by decide +kernel) _
  exact exists_compiled built registered valid Settings.usable_standard lines_boxed made
    (eq_ok_of_isOk (by decide +kernel) []) (eq_ok_of_isOk (by decide +kernel) []) (by decide +kernel)
    (by decide +kernel) (by decide +kernel)

end PipelineGraph

/-! ## Outside the functions -/

/-- Making modules of the host known does nothing else. -/
theorem Host.Environment.Holds.yields_runStatements (h : env.Holds pieces) {s : Entries} {w : World} :
    ∃ v, Yields (Host.runStatements env) s w (.ok v) s w := by
  obtain ⟨modules, e⟩ := h.imports
  unfold Host.runStatements
  rw [e]
  clear e
  generalize Datum.unit = v
  induction modules generalizing v with
  | nil => exact ⟨v, .block_nil v⟩
  | cons m modules ih =>
    obtain ⟨v', rest⟩ := ih .unit
    have known : Yields (evalStmt env (callFunction env Host.maxCalls) (importStmt m.name)) s w
        (.ok .unit) s w := (Host.Yields.require (Host.module?_name m)).map _
    exact ⟨v', .block_cons rfl known rest⟩

/-- A function of the unit that is called after that comes to what it comes to. -/
theorem Host.Environment.Holds.yields_runFunctionOf (h : env.Holds pieces) {function : String}
    {arguments : List Datum} {own : Function} {ending : Except Host.Halt Datum} {s s' : Entries}
    {w w' : World} (found : env.program.function? function arguments.length = some own)
    (called : Yields (callFunction env Host.maxCalls own arguments) s w ending s' w') :
    Yields (Host.runFunctionOf env function arguments) s w ending s' w' := by
  obtain ⟨v, imported⟩ : ∃ v, Yields (Host.runStatements env) s w (.ok v) s w :=
    h.yields_runStatements
  unfold Host.runFunctionOf
  exact imported.bind ((Host.Yields.require found).bind called)

end Pipewright
