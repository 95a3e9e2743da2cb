import Pipewright.Proofs.Script.Programs
import Pipewright.Proofs.Unit.Imports
import Pipewright.Proofs.Unit.Pieces

/-! # The text of a unit reads as its program
The program of a unit's text has the functions of its pieces, and before them nothing but lines that
make modules of the host known. -/

namespace Pipewright

open Script (Expr Function Stmt Lexes Token Leads endsLine anyChar functionsTokens importLine importStmt
  isIdentifier isLine)

variable {name tab text : String} {ts : List Token} {r : Registry} {s : Settings}
  {g : PipelineGraph} {pieces : List Piece}

/-! ## Items and pieces -/

/-- A remark of one line has no tokens, nor has the line break behind it. -/
theorem lexes_remark {remark : String} (line : isLine remark = true) (h : Lexes endsLine text ts) :
    Lexes endsLine ("// " ++ remark ++ "\n" ++ text) ts := by
  have plain : ∀ c ∈ remark.toList, c ≠ '\n' ∧ c ≠ '\r' := by simpa [isLine] using line
  have broken : Lexes anyChar ("// " ++ remark ++ "\n") [] :=
    (Script.isRemark_of_line plain).lexes.append (.blank (s := "\n") (by decide)) rfl
  exact broken.append_any h

/-- The text of a legible item is cut into the tokens of its function. -/
theorem Item.lexes (blank : Text.isBlank tab.toList = true)
    (line : ∀ c ∈ tab.toList, c ≠ '\n' ∧ c ≠ '\r') {item : Item} (h : item.isLegible = true) :
    Lexes endsLine (item.text tab) (functionsTokens item.function?.toList) := by
  cases item with
  | heading title =>
    have rule : Lexes endsLine "//" [] := .remark (s := "") fun c m => absurd m List.not_mem_nil
    have broken : Lexes anyChar "//\n" [] := rule.append (.blank (s := "\n") (by decide)) rfl
    have all : Lexes endsLine ("//\n" ++ ("// " ++ title ++ "\n" ++ "//")) [] :=
      broken.append_any (lexes_remark h rule)
    have same : Item.text tab (.heading title) = "//\n" ++ ("// " ++ title ++ "\n" ++ "//") := by
      have first : "//\n// " = "//\n" ++ "// " := rfl
      have last : "\n//" = "\n" ++ "//" := rfl
      unfold Item.text
      rw [first, last]
      simp only [String.append_assoc]
    rw [same]
    exact all
  | function f =>
    have all := Function.lexes blank line (f := f) h
    rwa [← List.flatMap_singleton Function.tokens f] at all
  | remarked remark f =>
    obtain ⟨remark', legible⟩ := Bool.and_eq_true_iff.1 h
    have all := lexes_remark remark' (Function.lexes blank line legible)
    rwa [← List.flatMap_singleton Function.tokens f] at all

/-- The functions of some items are those of one after another. -/
theorem functionsTokens_items (items : List Item) :
    items.flatMap (fun item => functionsTokens item.function?.toList) =
      functionsTokens (items.filterMap Item.function?) := by
  induction items with
  | nil => rfl
  | cons item items ih =>
    rw [List.flatMap_cons, ih]
    cases e : item.function? with
    | none =>
      rw [List.filterMap_cons_none e]
      rfl
    | some f =>
      rw [List.filterMap_cons_some e]
      unfold functionsTokens
      rw [List.flatMap_cons, Option.toList_some, List.flatMap_singleton]

/-- The text of a piece with legible items is cut into the tokens of its functions. -/
theorem Piece.lexes (blank : Text.isBlank tab.toList = true)
    (line : ∀ c ∈ tab.toList, c ≠ '\n' ∧ c ≠ '\r') {piece : Piece}
    (h : ∀ item ∈ piece.items, item.isLegible = true) :
    Lexes endsLine (piece.body tab) (functionsTokens piece.functions) := by
  have all := Script.lexes_separate "\n\n" (by decide) rfl fun item m =>
    Item.lexes blank line (h item m)
  rwa [functionsTokens_items] at all

/-! ## Imports -/

/-- Import lines are cut into the tokens of the statements that they are. -/
theorem lexes_importLines (modules : List HostModule) :
    Lexes endsLine (Text.joinLines (modules.map fun m => importLine m.name))
      (Stmt.tokensOfBlock ((modules.map HostModule.name).map importStmt)) := by
  have each : ∀ m ∈ modules, Lexes endsLine (importLine m.name) (importStmt m.name).tokens := by
    intro m _
    exact Script.lexes_useModule m.name (by cases m <;> decide)
  rw [Stmt.tokensOfBlock_eq, List.flatMap_map, List.flatMap_map]
  exact Script.lexes_separate "\n" (by decide) rfl each

/-- The modules by which a pipeline runs, and those of its literals. -/
def PipelineGraph.runModules (g : PipelineGraph) : List HostModule :=
  (if g.innerSteps.isEmpty then [.progress, .scene] else [.progress, .scene, .operations]) ++
    (g.nodes.filterMap fun node => node.2.fixed?).flatMap Value.modules

/-- The modules that the unit of a pipeline needs: those by which it runs, and those of the types of
its overall inputs and outputs. -/
def PipelineGraph.neededModules (g : PipelineGraph) (boundary : List SlotKey) : List HostModule :=
  g.runModules ++ (boundary.filterMap g.datatype?).flatMap DataType.modules

/-- The piece that runs a pipeline asks for the modules by which it runs. -/
theorem isImports_runPiece {piece : Piece} (h : runPiece name ⟨g⟩ r s = .ok piece) :
    IsImports piece.imports (g.runModules.filter (· ≠ .types)) := by
  obtain ⟨inputs, outputs, steps, returned, places, parts⟩ := PipelineGraph.exists_runParts h
  have several := parts.several
  unfold runPiece at h
  simp only [bind, Except.bind, pure, Except.pure, parts.ordered, parts.ordered', parts.named,
    parts.generated, parts.bound, parts.managed] at h
  rw [if_neg (by omega)] at h
  have imports : piece.imports = runImports g := by rw [← Except.ok.inj h]
  rw [imports]
  exact (IsImports.importLines _).cleanImports

/-- The cleaned imports of the pieces of a unit make known what the unit needs, but for the module that
is always known. -/
theorem cleanImports_unitPieces {hasIcon : Bool} {inputs outputs : List SlotKey}
    (ordered : g.orderedInputs = .ok inputs) (ordered' : g.orderedOutputs = .ok outputs)
    (h : unitPieces name ⟨g⟩ r s hasIcon = .ok pieces) :
    cleanImports (Text.joinLines (pieces.map Piece.imports)) =
      importLines ((g.neededModules (inputs ++ outputs)).filter (· ≠ .types)) := by
  obtain ⟨-, parameters, run, widget, first, second, third, rfl⟩ := exists_unitPieces h
  obtain ⟨inputs', outputs', known, known', rfl⟩ := exists_parameterPiece first
  cases ordered.symm.trans known
  cases ordered'.symm.trans known'
  obtain ⟨-, -, -, -, rfl⟩ := exists_widgetPiece third
  have types : IsImports (cleanImports (g.importsOf (inputs ++ outputs))) _ :=
    (IsImports.importLines _).cleanImports
  have all := IsImports.joinLines (.cons .empty (.cons types (.cons (isImports_runPiece second)
    (.cons (.importLines [.progress, .scene]) .nil))))
  simp only [List.map_cons, List.map_nil, metadataPiece]
  rw [all.cleanImports_eq]
  refine importLines_congr fun m => ?_
  -- the widget needs no module by which the pipeline does not run
  have widget : m ∈ [HostModule.progress, .scene] → m ∈ g.runModules := by
    unfold PipelineGraph.runModules
    split <;> simp <;> tauto
  simp only [PipelineGraph.neededModules, List.flatten_cons, List.flatten_nil, List.mem_filter,
    List.mem_append, List.not_mem_nil, decide_eq_true_eq]
  tauto

/-! ## The whole text -/

/-- The tokens of the program that is made of the functions of some pieces and makes modules known. -/
def unitTokens (modules : List HostModule) (pieces : List Piece) : List Token :=
  Stmt.tokensOfBlock ((modules.map HostModule.name).map importStmt) ++
    functionsTokens (pieces.flatMap Piece.functions)

/-- The text that is put together from legible pieces is cut into import lines and the tokens of
their functions. -/
theorem lexes_assemble {modules : List HostModule} (named : isIdentifier name = true)
    (usable : s.Usable) (legible : ∀ piece ∈ pieces, ∀ item ∈ piece.items, item.isLegible = true)
    (cleaned : cleanImports (Text.joinLines (pieces.map Piece.imports)) =
      Text.joinLines (modules.map fun m => importLine m.name)) :
    Lexes endsLine (assemble name s pieces) (unitTokens modules pieces) := by
  have blank : Text.isBlank s.tab.toList = true := Script.isBlank_spaces _
  have line : ∀ c ∈ s.tab.toList, c ≠ '\n' ∧ c ≠ '\r' := Script.inLine_spaces _
  have bodies := Script.lexes_separate "\n\n" (by decide) rfl fun piece m =>
    Piece.lexes blank line (legible piece m)
  have functions : pieces.flatMap (fun piece => functionsTokens piece.functions) =
      functionsTokens (pieces.flatMap Piece.functions) := by
    unfold functionsTokens
    rw [List.flatMap_assoc]
  rw [functions] at bodies
  have ended : Lexes endsLine ("\n\n".intercalate (pieces.map fun p => p.body s.tab) ++ "\n")
      (functionsTokens (pieces.flatMap Piece.functions) ++ []) :=
    bodies.append (.mono (.blank (s := "\n") (by decide)) fun _ _ => rfl) rfl
  rw [List.append_nil] at ended
  have spaced := (lexes_importLines modules).append (.blank (s := "\n\n") (by decide)) rfl
  rw [List.append_nil] at spaced
  -- put together from the end: imports and pieces, then the two remarks in front
  have below := (Lexes.blank (s := "\n") (by decide)).append_any (spaced.append_any ended)
  have title : isLine (name ++ "." ++ s.fileExtension) = true :=
    Script.isLine_append (isLine_append_of_isIdentifier named (by decide)) usable.extension
  have generated : isLine ("Generated by " ++ s.generatorName ++
      ". Edit the pipeline, not this file.") = true :=
    Script.isLine_append (Script.isLine_append (by decide) usable.generator) (by decide)
  have all := lexes_remark title (lexes_remark generated below)
  have same : assemble name s pieces = "// " ++ (name ++ "." ++ s.fileExtension) ++ "\n" ++
      ("// " ++ ("Generated by " ++ s.generatorName ++ ". Edit the pipeline, not this file.") ++
        "\n" ++ ("\n" ++ (cleanImports (Text.joinLines (pieces.map Piece.imports)) ++ "\n\n" ++
          ("\n\n".intercalate (pieces.map fun p => p.body s.tab) ++ "\n")))) := by
    have first : "\n// Generated by " = "\n" ++ "// " ++ "Generated by " := rfl
    have last : ". Edit the pipeline, not this file.\n\n" =
        ". Edit the pipeline, not this file." ++ "\n" ++ "\n" := rfl
    unfold assemble
    rw [first, last]
    simp only [String.append_assoc]
  rw [same, cleaned]
  exact all

/-! ## The program -/

/-- A function of a piece with legible items is legible. -/
theorem isLegible_of_mem_functions {piece : Piece}
    (h : ∀ item ∈ piece.items, item.isLegible = true) :
    ∀ f ∈ piece.functions, f.isLegible = true := by
  intro f m
  obtain ⟨item, there, e⟩ := List.mem_filterMap.1 m
  have legible := h item there
  cases item with
  | heading title => cases e
  | function f' =>
    cases e
    exact legible
  | remarked remark f' =>
    cases e
    exact (Bool.and_eq_true_iff.1 legible).2

/-- The program of a unit's text, if it is read at all, has the functions of the unit's pieces, and
no two of them that could be confused. -/
theorem exists_program {hasIcon : Bool} {program : Script.Program} (w : g.Wired r) (built : r.Built)
    (usable : s.Usable) (lines : g.Lines r) (h : unitSource name ⟨g⟩ r s hasIcon = .ok text)
    (read : Script.Program.ofText? text = some program) :
    ∃ pieces, ∃ modules : List HostModule, unitPieces name ⟨g⟩ r s hasIcon = .ok pieces ∧
      program = ⟨(pieces.flatMap Piece.functions).map Function.flat,
        (modules.map HostModule.name).map importStmt⟩ ∧ program.Distinct := by
  unfold unitSource at h
  cases e : unitPieces name ⟨g⟩ r s hasIcon with
  | error fault =>
    rw [e] at h
    cases h
  | ok pieces =>
    rw [e] at h
    cases h
    have legible := isLegible_unitPieces w built usable lines e
    have functions : ∀ f ∈ pieces.flatMap Piece.functions, f.isLegible = true := by
      intro f m
      obtain ⟨piece, there, m⟩ := List.mem_flatMap.1 m
      exact isLegible_of_mem_functions (legible piece there) f m
    obtain ⟨named, parameters, -, -, first, -⟩ := exists_unitPieces e
    obtain ⟨inputs, outputs, ordered, ordered', -⟩ := exists_parameterPiece first
    obtain ⟨modules, once⟩ :=
      exists_modules ((g.neededModules (inputs ++ outputs)).filter (· ≠ .types))
    have cleaned := (cleanImports_unitPieces ordered ordered' e).trans (importLines_eq once)
    have lexes := lexes_assemble named usable legible cleaned
    exact ⟨pieces, modules, rfl, Script.ofText?_eq functions lexes read⟩

end Pipewright
