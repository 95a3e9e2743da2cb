import Pipewright.Proofs.Registry.Growth
import Pipewright.Proofs.Unit.Loaded

/-! # Pipelines in registries that grow
Validation and generation look up only the operations that the slots of a pipeline name. So what
they come to depends on these alone, and registering further operations changes nothing for a
pipeline that is valid. -/

namespace Pipewright

/-- Turning members of a list over depends on what its members turn into. -/
theorem mapM_congr {ε α β : Type} {f f' : α → Except ε β} {l : List α}
    (same : ∀ a ∈ l, f a = f' a) : l.mapM f = l.mapM f' := by
  induction l with
  | nil => rfl
  | cons a rest ih =>
    rw [List.mapM_cons, List.mapM_cons, same a List.mem_cons_self,
      ih fun b m => same b (List.mem_cons_of_mem _ m)]

/-- What is found first in a list depends on what is found at its members. -/
theorem findSome?_congr {α β : Type} {f f' : α → Option β} {l : List α}
    (same : ∀ a ∈ l, f a = f' a) : l.findSome? f = l.findSome? f' := by
  induction l with
  | nil => rfl
  | cons a rest ih =>
    rw [List.findSome?_cons, List.findSome?_cons, same a List.mem_cons_self,
      ih fun b m => same b (List.mem_cons_of_mem _ m)]

namespace PipelineGraph

variable {g : PipelineGraph} {r r' : Registry} {keys : List SlotKey} {key : SlotKey}

/-- Two registries have the same operations for some slots. -/
def Agree (r r' : Registry) (keys : List SlotKey) : Prop :=
  ∀ key ∈ keys, key.operation.bind r.operation? = key.operation.bind r'.operation?

/-- A registry in which a registry is kept agrees with it where it has all operations. -/
theorem agree_of_keeps (kept : r.Keeps r')
    (registered : ∀ key ∈ keys, key.operation ≠ none → ∃ o, Belongs r key o) :
    Agree r r' keys := by
  intro key m
  cases named : key.operation with
  | none => rfl
  | some name =>
    obtain ⟨o, name', named', found⟩ := registered key m (by simp [named])
    obtain rfl : name = name' := Option.some.inj (named.symm.trans named')
    rw [Option.bind_some, Option.bind_some, found, kept name o found]

namespace Agree

/-- Registries agree for fewer slots. -/
theorem mono (same : Agree r r' keys) {fewer : List SlotKey} (within : ∀ key ∈ fewer, key ∈ keys) :
    Agree r r' fewer :=
  fun key m => same key (within key m)

/-- The operation that a slot names is the same. -/
theorem operation?_eq (same : Agree r r' keys) (m : key ∈ keys) {name : String}
    (named : key.operation = some name) : r.operation? name = r'.operation? name := by
  have e := same key m
  rwa [named, Option.bind_some, Option.bind_some] at e

/-! ## Validation -/

/-- The check of names comes to the same. -/
theorem outlineFault?_eq (same : Agree r r' g.keys) : g.outlineFault? r = g.outlineFault? r' := by
  have each : ∀ key ∈ g.keys, g.namingFault? r key = g.namingFault? r' key := by
    intro key m
    unfold namingFault?
    cases named : key.operation with
    | none => rfl
    | some name =>
      have known : r.contains name = r'.contains name :=
        congrArg Option.isSome (same.operation?_eq m named)
      simp only [known]
  unfold outlineFault?
  rw [findSome?_congr each]

/-- The types that are filled in are the same. -/
theorem fillTypes_eq (same : Agree r r' g.keys) : g.fillTypes r = g.fillTypes r' := by
  have each : ∀ node ∈ g.nodes, fillNode r node = fillNode r' node := by
    intro node m
    have declared : declaredType r node.1 = declaredType r' node.1 := by
      unfold declaredType
      rw [same node.1 (List.mem_map_of_mem m)]
    unfold fillNode
    simp only [declared]
  unfold fillTypes
  rw [mapM_congr each]

/-- The registries agree for the slots of each step. -/
theorem groups (same : Agree r r' g.keys) (m : keys ∈ g.groups) : Agree r r' keys := by
  have joined : g.groups.flatten = g.keys := List.flatten_splitBy _ _
  exact same.mono fun key there => joined ▸ List.mem_flatten.2 ⟨keys, m, there⟩

/-- The check of a step comes to the same. -/
theorem stepFault?_eq (same : Agree r r' keys) : stepFault? r keys = stepFault? r' keys := by
  cases keys with
  | nil => rfl
  | cons first rest =>
    unfold stepFault?
    dsimp only
    cases named : first.operation with
    | none => rfl
    | some name =>
      dsimp only
      rw [same.operation?_eq List.mem_cons_self named]

/-- The checks of a graph whose types are filled in come to the same. -/
theorem filledFault?_eq (same : Agree r r' g.keys) : g.filledFault? r = g.filledFault? r' := by
  have each : ∀ run ∈ g.groups, stepFault? r run = stepFault? r' run :=
    fun run m => (same.groups m).stepFault?_eq
  unfold filledFault?
  rw [findSome?_congr each]

/-- Validation comes to the same. -/
theorem validate_eq (same : Agree r r' g.keys) : g.validate r = g.validate r' := by
  unfold validate
  rw [same.outlineFault?_eq, same.fillTypes_eq]
  cases g.outlineFault? r' with
  | some fault => rfl
  | none =>
    cases filling : g.fillTypes r' with
    | error fault => rfl
    | ok filled =>
      -- the slots are still the same ones when their types are filled in
      have kept : filled.keys = g.keys := (fillTypes_eq_ok_iff.1 filling).keys
      have checked : filled.filledFault? r = filled.filledFault? r' :=
        filledFault?_eq (kept ▸ same)
      simp only [checked]

/-! ## The unit -/

/-- The operation of a step is the same. -/
theorem stepOperation_eq (same : Agree r r' keys) : stepOperation r keys = stepOperation r' keys := by
  cases keys with
  | nil => rfl
  | cons first rest =>
    unfold stepOperation
    dsimp only
    cases named : first.operation with
    | none => rfl
    | some name =>
      dsimp only
      rw [same.operation?_eq List.mem_cons_self named]

/-- The registries agree for the slots of each inner step. -/
theorem innerSteps (same : Agree r r' g.keys) (m : keys ∈ g.innerSteps) : Agree r r' keys :=
  same.groups (List.mem_of_mem_tail (List.mem_of_mem_dropLast m))

/-- The statements of the steps are the same. -/
theorem innerStmts_eq (same : Agree r r' g.keys) : g.innerStmts r = g.innerStmts r' := by
  have each : ∀ keys ∈ g.innerSteps, g.stepStmts r keys = g.stepStmts r' keys := by
    intro keys m
    unfold stepStmts
    rw [(same.innerSteps m).stepOperation_eq]
  unfold innerStmts
  rw [mapM_congr each]

/-- The places at which there are nodes are the same. -/
theorem managed_eq (same : Agree r r' g.keys) : g.managed r = g.managed r' := by
  have each : ∀ keys ∈ g.innerSteps, managedOfStep r keys = managedOfStep r' keys := by
    intro keys m
    unfold managedOfStep
    rw [(same.innerSteps m).stepOperation_eq]
  unfold managed
  rw [mapM_congr each]

variable {p : ValidatedPipeline} {name : String} {s : Settings} {hasIcon : Bool}

/-- The piece that runs the pipeline is the same. -/
theorem runPiece_eq (same : Agree r r' p.graph.keys) : runPiece name p r s = runPiece name p r' s := by
  unfold runPiece
  simp only [same.innerStmts_eq, same.managed_eq]

/-- The pipeline depends on the same. -/
theorem dependencies_eq (same : Agree r r' p.graph.keys) :
    p.dependencies r s = p.dependencies r' s := by
  unfold ValidatedPipeline.dependencies
  rw [List.filterMap_congr same]

/-- The unit is the same, or what keeps it from being generated. -/
theorem unitSource_eq (same : Agree r r' p.graph.keys) :
    unitSource name p r s hasIcon = unitSource name p r' s hasIcon := by
  have told : metadataPiece name p r s hasIcon = metadataPiece name p r' s hasIcon := by
    unfold metadataPiece Metadata.of
    rw [same.dependencies_eq]
  unfold unitSource unitPieces
  rw [same.runPiece_eq, told]

end Agree

/-- Registering more changes nothing for a pipeline that is valid: whatever is registered after it
was validated, also by providers of which some fail, validating it again comes to the same, and so
does generating its unit, whether there is one or something keeps it from being generated. -/
theorem validate_performAll {p : ValidatedPipeline} (calls : List Registry.Call)
    (valid : g.validate r = .ok p) :
    g.validate (r.performAll calls) = .ok p ∧
      ∀ (name : String) (s : Settings) (hasIcon : Bool),
        unitSource name p (r.performAll calls) s hasIcon = unitSource name p r s hasIcon := by
  obtain ⟨outline, filling, -⟩ := validate_eq_ok_iff.1 valid
  have same : Agree r (r.performAll calls) g.keys :=
    agree_of_keeps (Registry.keeps_performAll r calls) (belongs_of_outlineFault? outline)
  refine ⟨same.validate_eq ▸ valid, fun name s hasIcon => ?_⟩
  have filled : Agree r (r.performAll calls) p.graph.keys := filling.keys.symm ▸ same
  exact filled.unitSource_eq.symm

/-- Making balls again, which is refused. -/
def ballingAgain : Registration := { balling with dependencies := ["rubber"] }

/-- Making balls of a color. -/
def coloring : Registration :=
  { balling with
    name := "colored ball"
    signature := ⟨[("color", some .str)], some (.node ball)⟩ }

/-- A provider that looks whether there is an operation, then adds one more and one that is there
already, and fails. -/
def failing : Provider :=
  .look fun r => if r.contains "ball" then .ofList [coloring, ballingAgain] else .finish none

/-- The pipeline with balls and a box stays as it is when more is registered, though registering
fails twice. -/
theorem validate_performAll_boxed :
    let calls : List Registry.Call := [.register ballingAgain, .registerAll [failing, .ofList []]]
    boxes.perform (.register ballingAgain) = boxes ∧
      (boxes.consult [failing, .ofList []]).1 = some (.duplicateName "ball") ∧
      (boxes.performAll calls).size = 3 ∧
      boxedOnce.validate boxes = .ok boxed ∧ boxedOnce.validate (boxes.performAll calls) = .ok boxed ∧
      unitSource "boxing" boxed (boxes.performAll calls) .standard false =
        unitSource "boxing" boxed boxes .standard false := by
  intro calls
  have valid : boxedOnce.validate boxes = .ok boxed := eq_ok_of_isOk (by decide +kernel) _
  obtain ⟨again, alike⟩ := validate_performAll calls valid
  exact ⟨rfl, rfl, rfl, valid, again, alike "boxing" .standard false⟩

end PipelineGraph

end Pipewright
