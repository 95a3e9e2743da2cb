import Pipewright.Proofs.Graph.Layers
import Pipewright.Proofs.Unit.Loaded

/-! # Programs below the layers of annotation
The function that runs a pipeline is the same when outer layers of annotation are added to the types
of the nodes and of the registered operations, or taken away from them. Only the remark above it,
which tells the types of the overall inputs and of what is returned, shows them. -/

namespace Pipewright

open Script (Expr Function Stmt)

namespace PipelineGraph

variable {g : PipelineGraph} {r : Registry}

/-! ## Slots -/

/-- A slot is bound to the same. -/
@[simp] theorem binding_bare (g : PipelineGraph) (key : SlotKey) :
    g.bare.binding key = g.binding key :=
  binding_congr (p := fun _ => True) (fun _ _ _ _ => trivial) (fun _ => fixed?_bare g _)
    (fun _ _ => producer?_bare g _) trivial

/-- The parameters of a step have the same order. -/
@[simp] theorem orderByPosition_bare (g : PipelineGraph) (step : Nat) (keys : List SlotKey) :
    g.bare.orderByPosition step keys = g.orderByPosition step keys := by
  unfold orderByPosition positionRank
  cases keys with
  | nil => rfl
  | cons first rest => simp only [position?_bare, funext g.position?_bare]

/-- A step has the same slots. -/
@[simp] theorem slotsAt_bare (g : PipelineGraph) (index : Int) :
    g.bare.slotsAt index = g.slotsAt index := by
  simp [slotsAt, resolveStep?, stepSlots]

@[simp] theorem orderedInputs_bare (g : PipelineGraph) :
    g.bare.orderedInputs = g.orderedInputs := by
  simp [orderedInputs, inputs]

@[simp] theorem orderedOutputs_bare (g : PipelineGraph) :
    g.bare.orderedOutputs = g.orderedOutputs := by
  simp [orderedOutputs, outputs]

/-! ## Steps -/

@[simp] theorem innerSteps_bare (g : PipelineGraph) : g.bare.innerSteps = g.innerSteps := by
  simp [innerSteps]

@[simp] theorem pieces_bare (g : PipelineGraph) : g.bare.pieces = g.pieces := by simp [pieces]

/-- An operation gets the same arguments. -/
@[simp] theorem arguments_bare (g : PipelineGraph) (step : Nat) (o : Operation) :
    g.bare.arguments step o.bare = g.arguments step o := by
  unfold arguments
  have parameters : o.bare.parameters =
      o.parameters.map fun parameter => (parameter.1, parameter.2.unannotated) := rfl
  rw [parameters, List.mapM_map]
  simp [Function.comp_def]

@[simp] theorem progressArguments_bare (g : PipelineGraph) (step : Nat) (o : Operation) :
    g.bare.progressArguments step o.bare = g.progressArguments step o := by
  simp [progressArguments]

/-- A step is of the operation without layers. -/
@[simp] theorem stepOperation_bare (r : Registry) (keys : List SlotKey) :
    stepOperation r.bare keys =
      (stepOperation r keys).map fun found => (found.1, found.2.bare) := by
  unfold stepOperation
  cases keys with
  | nil => rfl
  | cons first rest =>
    dsimp only
    cases first.operation with
    | none => rfl
    | some name =>
      dsimp only
      rw [Registry.operation?_bare]
      cases r.operation? name <;> rfl

/-- A step consists of the same statements. -/
@[simp] theorem stepStmts_bare (g : PipelineGraph) (r : Registry) (keys : List SlotKey) :
    g.bare.stepStmts r.bare keys = g.stepStmts r keys := by
  unfold stepStmts
  rw [stepOperation_bare]
  cases stepOperation r keys with
  | error fault => rfl
  | ok found =>
    obtain ⟨step, o⟩ := found
    simp [bind, Except.bind, Except.map]

/-- The inner steps consist of the same statements. -/
@[simp] theorem innerStmts_bare (g : PipelineGraph) (r : Registry) :
    g.bare.innerStmts r.bare = g.innerStmts r := by
  unfold innerStmts
  rw [innerSteps_bare, funext (g.stepStmts_bare r)]

@[simp] theorem resultVariables_bare (g : PipelineGraph) :
    g.bare.resultVariables = g.resultVariables := by
  simp [resultVariables]

/-! ## Removing nodes -/

/-- Nodes are at the same places in the result of a step. -/
@[simp] theorem managedOfStep_bare (r : Registry) (keys : List SlotKey) :
    managedOfStep r.bare keys = managedOfStep r keys := by
  unfold managedOfStep
  rw [stepOperation_bare]
  cases stepOperation r keys with
  | error fault => rfl
  | ok found => simp [bind, Except.bind, Except.map]

/-- Nodes are at the same places in all results. -/
@[simp] theorem managed_bare (g : PipelineGraph) (r : Registry) :
    g.bare.managed r.bare = g.managed r := by
  unfold managed
  rw [innerSteps_bare, funext (managedOfStep_bare r)]

/-- The same has to stay. -/
@[simp] theorem retained_bare (g : PipelineGraph) (returned : List Access)
    (inputs : List SlotKey) : g.bare.retained returned inputs = g.retained returned inputs := by
  simp [retained, Function.comp_def]

/-- The same nodes are removed. -/
@[simp] theorem cleanupStmts_bare (g : PipelineGraph) (managed returned : List Access)
    (inputs : List SlotKey) :
    g.bare.cleanupStmts managed returned inputs = g.cleanupStmts managed returned inputs := by
  simp [cleanupStmts]

/-! ## The piece -/

@[simp] theorem boundaryFault?_bare (g : PipelineGraph) :
    boundaryFault? g.bare = boundaryFault? g := by
  simp [boundaryFault?]

/-- The literals are the same, and so are the imports. -/
@[simp] theorem runImports_bare (g : PipelineGraph) : runImports g.bare = runImports g := by
  have literals : (g.bare.nodes.filterMap fun node => node.2.fixed?) =
      g.nodes.filterMap fun node => node.2.fixed? := by
    simp [bare, Keyed.mapValues, List.filterMap_map, Function.comp_def]
  unfold runImports
  rw [innerSteps_bare, literals]

@[simp] theorem runBody_bare (g : PipelineGraph) (steps cleanup : List Stmt) (result : Expr) :
    runBody g.bare steps cleanup result = runBody g steps cleanup result := by
  simp [runBody]

end PipelineGraph

/-- A text among others is between two texts that do not depend on it. -/
theorem exists_intercalate_eq (separator : String) (before after : List String) :
    ∃ front back : String, ∀ text, separator.intercalate (before ++ text :: after) =
      front ++ text ++ back := by
  have behind : ∃ back : String, ∀ text, separator.intercalate (text :: after) = text ++ back := by
    cases after with
    | nil => exact ⟨"", fun text => by rw [String.intercalate_singleton, String.append_empty]⟩
    | cons next rest =>
      refine ⟨separator ++ separator.intercalate (next :: rest), fun text => ?_⟩
      rw [String.intercalate_cons_of_ne_nil (List.cons_ne_nil _ _), String.append_assoc]
  obtain ⟨back, behind⟩ := behind
  cases before with
  | nil => exact ⟨"", back, fun text => by rw [List.nil_append, behind, String.empty_append]⟩
  | cons first rest =>
    refine ⟨separator.intercalate (first :: rest) ++ separator, back, fun text => ?_⟩
    rw [String.intercalate_append_of_ne_nil (List.cons_ne_nil _ _) (List.cons_ne_nil _ _), behind,
      ← String.append_assoc]

/-- The text of a piece with a function under a remark is the line of that remark between two texts
that do not depend on it. -/
theorem Piece.exists_code_eq (imports tab : String) (before after : List Item) (f : Function) :
    ∃ front back : String, ∀ remark,
      Piece.code ⟨imports, before ++ .remarked remark f :: after⟩ tab =
        front ++ ("// " ++ remark ++ "\n") ++ back := by
  obtain ⟨front, back, spread⟩ :=
    exists_intercalate_eq "\n\n" (before.map (Item.text tab)) (after.map (Item.text tab))
  refine ⟨front, f.text tab ++ back ++ "\n", fun remark => ?_⟩
  unfold code body
  rw [List.map_append, List.map_cons, spread]
  simp only [Item.text, String.append_assoc]

namespace PipelineGraph

variable {g g' : PipelineGraph} {r r' : Registry}

/-- Graphs and registries that are the same below the layers have the same piece, but for the remark,
or nothing comes of either for the same reason. -/
theorem runPiece_layers (graphs : g.bare = g'.bare) (registries : r.bare = r'.bare) (name : String)
    (s : Settings) :
    (∃ fault, runPiece name ⟨g⟩ r s = .error fault ∧ runPiece name ⟨g'⟩ r' s = .error fault) ∨
    ∃ imports before first after inputs outputs,
      g.orderedInputs = .ok inputs ∧ g.orderedOutputs = .ok outputs ∧
      runPiece name ⟨g⟩ r s = .ok ⟨imports, before ++
        Item.remarked (signatureRemark g s.runFunction (name ++ "Outputs") inputs outputs) first ::
          after⟩ ∧
      runPiece name ⟨g'⟩ r' s = .ok ⟨imports, before ++
        Item.remarked (signatureRemark g' s.runFunction (name ++ "Outputs") inputs outputs) first ::
          after⟩ := by
  have same {α : Type} (f : PipelineGraph → Registry → α)
      (below : ∀ g r, f g.bare r.bare = f g r) : f g' r' = f g r := by
    rw [← below g' r', ← graphs, ← registries, below]
  have groups := same (fun g _ => g.groups) fun g _ => g.groups_bare
  have ordered := same (fun g _ => g.orderedInputs) fun g _ => g.orderedInputs_bare
  have ordered' := same (fun g _ => g.orderedOutputs) fun g _ => g.orderedOutputs_bare
  have named := same (fun g _ => boundaryFault? g) fun g _ => boundaryFault?_bare g
  have generated := same innerStmts innerStmts_bare
  have bound := same (fun g _ => g.binding) fun g _ => funext g.binding_bare
  have managed := same PipelineGraph.managed managed_bare
  have cleanup := same (fun g _ => g.cleanupStmts) fun g _ =>
    funext fun managed => funext fun returned => funext (g.cleanupStmts_bare managed returned)
  have body := same (fun g _ => runBody g) fun g _ =>
    funext fun steps => funext fun cleanup => funext (g.runBody_bare steps cleanup)
  have imports := same (fun g _ => runImports g) fun g _ => runImports_bare g
  unfold runPiece
  simp only [groups, ordered, ordered', named, generated, bound, managed, cleanup, body, imports,
    bind, Except.bind, pure, Except.pure]
  -- what can go wrong goes wrong in both runs, at the same place
  split
  · exact .inl ⟨_, rfl, rfl⟩
  cases g.orderedInputs with
  | error fault => exact .inl ⟨fault, rfl, rfl⟩
  | ok inputs =>
  cases g.orderedOutputs with
  | error fault => exact .inl ⟨fault, rfl, rfl⟩
  | ok outputs =>
  cases boundaryFault? g with
  | some fault => exact .inl ⟨_, rfl, rfl⟩
  | none =>
  cases g.innerStmts r with
  | error fault => exact .inl ⟨fault, rfl, rfl⟩
  | ok steps =>
  dsimp only
  cases outputs.mapM g.binding with
  | error fault => exact .inl ⟨fault, rfl, rfl⟩
  | ok returned =>
  dsimp only
  cases g.managed r with
  | error fault => exact .inl ⟨fault, rfl, rfl⟩
  | ok places => exact .inr ⟨_, _, _, _, inputs, outputs, rfl, rfl, rfl, rfl⟩

/-- Two graphs that are the same below the layers are both valid, and then slots of operations have
the same types, or they have the same fault below the layers. -/
theorem validate_layers (graphs : g.bare = g'.bare) (registries : r.bare = r'.bare) :
    (∃ fault fault', g.validate r = .error fault ∧ g'.validate r' = .error fault' ∧
      fault.bare = fault'.bare) ∨
    ∃ p p', g.validate r = .ok p ∧ g'.validate r' = .ok p' ∧ p.graph.bare = p'.graph.bare ∧
      ∀ key, key.operation ≠ none → p.graph.datatype? key = p'.graph.datatype? key := by
  have below := validate_bare g r
  rw [graphs, registries, validate_bare g' r'] at below
  cases valid : g.validate r with
  | error fault =>
    cases valid' : g'.validate r' with
    | error fault' =>
      rw [valid, valid'] at below
      exact .inl ⟨fault, fault', rfl, rfl, (Except.error.inj below).symm⟩
    | ok p' =>
      rw [valid, valid'] at below
      cases below
  | ok p =>
    cases valid' : g'.validate r' with
    | error fault' =>
      rw [valid, valid'] at below
      cases below
    | ok p' =>
      rw [valid, valid'] at below
      have filled : p.graph.bare = p'.graph.bare :=
        congrArg ValidatedPipeline.graph (Except.ok.inj below).symm
      refine .inr ⟨p, p', rfl, rfl, filled, fun key bound => ?_⟩
      rw [← datatype?_interior valid bound, ← datatype?_interior valid' bound, ← datatype?_bare,
        ← datatype?_bare, filled]

/-- Outer layers of annotation do not matter. Take two lists of registrations, two registries and
two graphs that are the same below the layers. Then the same of the registrations are accepted, with
the same error if not all are. Both graphs are valid, or both have the same fault below the layers.
If they are valid, slots of operations are filled in with the same types, and the pieces that run
the two pipelines have the same imports and the same text but for the remark that tells the types,
or nothing comes of either for the same reason. -/
theorem layers_invisible {news news' : List Registration}
    (offers : news.map Registration.bare = news'.map Registration.bare)
    (registries : r.bare = r'.bare) (graphs : g.bare = g'.bare) :
    ((r.registerAll news).1 = (r'.registerAll news').1 ∧
      (r.registerAll news).2.bare = (r'.registerAll news').2.bare) ∧
    ((∃ fault fault', g.validate r = .error fault ∧ g'.validate r' = .error fault' ∧
        fault.bare = fault'.bare) ∨
      ∃ p p', g.validate r = .ok p ∧ g'.validate r' = .ok p' ∧
        (∀ key, key.operation ≠ none → p.graph.datatype? key = p'.graph.datatype? key) ∧
        ∀ (name : String) (s : Settings),
          (∃ fault, runPiece name p r s = .error fault ∧ runPiece name p' r' s = .error fault) ∨
          ∃ piece piece' inputs outputs front back,
            runPiece name p r s = .ok piece ∧ runPiece name p' r' s = .ok piece' ∧
            piece.imports = piece'.imports ∧
            p.graph.orderedInputs = .ok inputs ∧ p.graph.orderedOutputs = .ok outputs ∧
            piece.code s.tab = front ++
              ("// " ++ signatureRemark p.graph s.runFunction (name ++ "Outputs") inputs outputs ++
                "\n") ++ back ∧
            piece'.code s.tab = front ++
              ("// " ++ signatureRemark p'.graph s.runFunction (name ++ "Outputs") inputs outputs ++
                "\n") ++ back) := by
  constructor
  · have below := Registry.registerAll_bare r news
    rw [registries, offers, Registry.registerAll_bare r' news', Prod.mk.injEq] at below
    exact ⟨below.1.symm, below.2.symm⟩
  · obtain rejected | ⟨p, p', valid, valid', filled, interior⟩ := validate_layers graphs registries
    · exact .inl rejected
    · refine .inr ⟨p, p', valid, valid', interior, fun name s => ?_⟩
      obtain failed | ⟨imports, before, first, after, inputs, outputs, ordered, ordered', run,
        run'⟩ := runPiece_layers filled registries name s
      · exact .inl failed
      · obtain ⟨front, back, told⟩ := Piece.exists_code_eq imports s.tab before after first
        exact .inr ⟨_, _, inputs, outputs, front, back, run, run', rfl, ordered, ordered', told _,
          told _⟩

/-- Making a ball and putting it into a new box, with layers around every type. -/
def layeredOffers (layers : List (List Annotation)) : List Registration :=
  let ball := DataType.wrap layers (.node ball)
  let box := DataType.wrap layers (.node box)
  [{ balling with signature := ⟨[], some ball⟩ },
    { boxing with signature := ⟨[("content", some ball)], some box⟩ }]

/-- The registry with these operations. -/
def layeredBoxes (layers : List (List Annotation)) : Registry :=
  (Registry.empty.registerAll (layeredOffers layers)).2

/-- A pipeline that puts a ball into a box, with layers around every type. -/
def layeredOnce (layers : List (List Annotation)) : PipelineGraph :=
  let ball := DataType.wrap layers (.node ball)
  let box := DataType.wrap layers (.node box)
  let slots := (((empty.addInput "thing" ball 0).addNode (.parameter 1 "box" "content")
    ⟨some ball, none, none⟩).addReturn 1 "box").addOutput 2 "out" box 0
  (slots.addEdge (.input "thing") (.parameter 1 "box" "content")).addEdge
    (.returnValue 1 "box") (.output 2 "out")

/-- That pipeline, validated. -/
def layered (layers : List (List Annotation)) : ValidatedPipeline :=
  ((layeredOnce layers).validate (layeredBoxes layers)).toOption.getD ⟨empty⟩

/-- Two layers of annotation. -/
def twice : List (List Annotation) := [[.decimals 2], []]

/-- Two layers around each type do not matter to putting a ball into a box: the pipeline is valid
with them and without them, and its function differs in the remark. -/
theorem layers_invisible_boxing :
    (layeredOffers []).map Registration.bare = (layeredOffers twice).map Registration.bare ∧
    (layeredBoxes []).bare = (layeredBoxes twice).bare ∧
    (layeredOnce []).bare = (layeredOnce twice).bare ∧
    (layeredOnce []).validate (layeredBoxes []) = .ok (layered []) ∧
    (layeredOnce twice).validate (layeredBoxes twice) = .ok (layered twice) ∧
    ∃ piece piece' front back,
      runPiece "Boxing" (layered []) (layeredBoxes []) .standard = .ok piece ∧
      runPiece "Boxing" (layered twice) (layeredBoxes twice) .standard = .ok piece' ∧
      piece.code Settings.standard.tab = front ++ "// run(thing: Ball) -> Box\n" ++ back ∧
      piece'.code Settings.standard.tab = front ++
        ("// run(thing: Annotated[Annotated[Ball], Decimals(2)]) -> " ++
          "Annotated[Annotated[Box], Decimals(2)]\n") ++ back := by
  have offers : (layeredOffers []).map Registration.bare =
      (layeredOffers twice).map Registration.bare := by rfl
  have registries : (layeredBoxes []).bare = (layeredBoxes twice).bare := by rfl
  have graphs : (layeredOnce []).bare = (layeredOnce twice).bare := by rfl
  have valid : (layeredOnce []).validate (layeredBoxes []) = .ok (layered []) :=
    eq_ok_of_isOk (by decide +kernel) _
  have valid' : (layeredOnce twice).validate (layeredBoxes twice) = .ok (layered twice) :=
    eq_ok_of_isOk (by decide +kernel) _
  refine ⟨offers, registries, graphs, valid, valid', ?_⟩
  obtain ⟨-, ⟨fault, -, rejected, -⟩ | ⟨p, p', found, found', -, alike⟩⟩ :=
    layers_invisible offers registries graphs
  · rw [valid] at rejected
    cases rejected
  rw [valid] at found
  rw [valid'] at found'
  cases found
  cases found'
  obtain ⟨fault, failed, -⟩ | ⟨piece, piece', inputs, outputs, front, back, run, run', -, ordered,
    ordered', told, told'⟩ := alike "Boxing" .standard
  · have runs : (runPiece "Boxing" (layered []) (layeredBoxes []) .standard).isOk = true := by
      decide +kernel
    rw [failed] at runs
    cases runs
  · have input : (layered []).graph.orderedInputs.toOption = some [.input "thing"] := by
      decide +kernel
    have output : (layered []).graph.orderedOutputs.toOption = some [.output 2 "out"] := by
      decide +kernel
    rw [ordered] at input
    rw [ordered'] at output
    cases input
    cases output
    have line : "// " ++ signatureRemark (layered []).graph Settings.standard.runFunction
        ("Boxing" ++ "Outputs") [.input "thing"] [.output 2 "out"] ++ "\n" =
          "// run(thing: Ball) -> Box\n" := by decide +kernel
    have line' : "// " ++ signatureRemark (layered twice).graph Settings.standard.runFunction
        ("Boxing" ++ "Outputs") [.input "thing"] [.output 2 "out"] ++ "\n" =
          "// run(thing: Annotated[Annotated[Ball], Decimals(2)]) -> " ++
            "Annotated[Annotated[Box], Decimals(2)]\n" := by decide +kernel
    rw [line] at told
    rw [line'] at told'
    exact ⟨piece, piece', front, back, run, run', told, told'⟩

end PipelineGraph

end Pipewright
