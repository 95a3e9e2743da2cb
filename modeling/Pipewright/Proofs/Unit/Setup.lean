import Pipewright.Proofs.Unit.Adoption
import Pipewright.Proofs.Unit.Types

/-! # Fresh parameter nodes
A unit makes a map with the inputs and the outputs, in which there is one entry for each overall
input or output. It holds what a fresh slot of its type holds. -/

namespace Pipewright

open Host (Environment Yields evalBlock evalExpr evalItems callFunction)
open Script (Expr Function)

/-! ## Packs -/

section Packs

variable {env : Environment} {name : String} {w : World}

/-- A function that returns a pack comes to a pack whose fields are those that are spelled. -/
theorem comes_packFunction {fields : List Expr} {fields' : List (String × DataType)}
    (h : ∀ depth, Yields (evalItems env (callFunction env depth) fields) [] w
      (.ok (fields'.map Host.fieldDatum)) [] w) :
    Yields.Comes env (packFunction name fields) [] w (.ok (.type (.pack name fields'))) w := by
  intro depth
  have spelled : Yields (evalExpr env (callFunction env depth)
      (.array (if fields.isEmpty then .inline else .spread) fields)) [] w
      (.ok (.array (fields'.map Host.fieldDatum))) [] w := (h depth).map _
  have pack : Yields (evalExpr env (callFunction env depth) (HostModule.types.call "pack"
      [.str name, .array (if fields.isEmpty then .inline else .spread) fields])) [] w
      (.ok (.type (.pack name fields'))) [] w :=
    Host.yields_typesCall (.items_cons (.str name) (.items_cons spelled .items_nil))
      ((Yields.mapM Host.fieldDatum Host.yields_packField fields').map _)
  exact ⟨_, [], rfl, .block_single rfl (.value pack)⟩

/-- The function that makes a fresh parameter node comes to the fresh fields of the pack of both. -/
theorem comes_setupFunction {pack : Function} {fields : List (String × DataType)}
    (named : pack.name = name ++ "ParameterNode") (none : pack.parameters = [])
    (provides : env.Provides pack)
    (h : Yields.Comes env pack [] w (.ok (.type (.pack pack.name fields))) w) :
    Yields.Comes env (setupFunction name) [] w
      (.ok (.map (Keyed.ofList (DataType.initialFields fields)))) w := by
  intro depth
  have called : Yields (evalExpr env (callFunction env depth) (.call pack.name [])) [] w
      (.ok (.type (.pack pack.name fields))) [] w :=
    .call_provided provides .items_nil (by rw [Function.arity, none]; rfl) h
  rw [named] at called
  have fresh : Yields (evalExpr env (callFunction env depth) (HostModule.types.call "instantiate"
      [.call (name ++ "ParameterNode") []])) [] w
      (.ok (.map (Keyed.ofList (DataType.initialFields fields)))) [] w :=
    Host.yields_typesCall (.items_cons called .items_nil)
      ((Host.yields_argumentType _ _).bind (.pure _))
  exact ⟨_, [], rfl, .block_single rfl (.value fresh)⟩

end Packs

namespace PipelineGraph

/-! ## Fresh slots -/

/-- The slots of some nodes with their types. -/
def slotFields (g : PipelineGraph) (keys : List SlotKey) : List (String × DataType) :=
  keys.map fun key => (key.slot, g.slotType key)

/-- The slots of some nodes with what fresh slots of their types hold. -/
def freshSlots (g : PipelineGraph) (keys : List SlotKey) : Entries :=
  keys.map fun key => (key.slot, (g.slotType key).initial)

variable {g : PipelineGraph} {env : Environment} {keys : List SlotKey}

/-- The fields for some nodes are spelled one by one. -/
theorem packFields_eq (g : PipelineGraph) (keys : List SlotKey) :
    g.packFields keys = DataType.spellingFields (g.slotFields keys) := by
  unfold packFields slotFields
  induction keys with
  | nil => rfl
  | cons key keys ih => rw [List.map_cons, List.map_cons, ih, DataType.spellingFields]

/-- What the fields for some nodes hold when they are fresh. -/
theorem initialFields_slotFields (g : PipelineGraph) (keys : List SlotKey) :
    DataType.initialFields (g.slotFields keys) = g.freshSlots keys := by
  unfold slotFields freshSlots
  induction keys with
  | nil => rfl
  | cons key keys ih => rw [List.map_cons, List.map_cons, DataType.initialFields, ih]

/-- The types that are nested in the types of some nodes. -/
theorem nestedFields_slotFields (g : PipelineGraph) (keys : List SlotKey) :
    DataType.nestedFields (g.slotFields keys) =
      keys.flatMap fun key => (g.slotType key).nested := by
  unfold slotFields
  induction keys with
  | nil => rfl
  | cons key keys ih =>
    rw [List.map_cons, DataType.nestedFields, ih, List.flatMap_cons]

/-- The fields for some nodes evaluate to fields that hold the same when they are fresh. -/
theorem exists_packFields
    (supports : env.Supports (keys.flatMap fun key => (g.slotType key).nested))
    (lacks : env.Lacks "parse_float") :
    ∃ fields : List (String × DataType), DataType.initialFields fields = g.freshSlots keys ∧
      ∀ (call : Host.Caller) (s : Entries) (w : World),
        Yields (evalItems env call (g.packFields keys)) s w
          (.ok (fields.map Host.fieldDatum)) s w := by
  rw [← nestedFields_slotFields] at supports
  obtain ⟨fields, same, yields⟩ := Host.exists_fields _ supports lacks
  refine ⟨fields, same.trans (initialFields_slotFields g keys), ?_⟩
  rwa [packFields_eq]

/-- There is exactly one fresh entry for each node of an end. -/
theorem NamedKeys.perm_freshSlots {r : Registry} {step : Nat} (w : g.Wired r)
    (h : g.NamedKeys step keys) (atEnd : step = 0 ∨ step = g.lastStep) :
    (Keyed.ofList (g.freshSlots keys)).Perm (g.freshSlots keys) := by
  refine Keyed.perm_ofList ?_
  unfold Keyed.keys freshSlots
  rw [List.map_map]
  exact h.nodup_slots w atEnd

/-! ## The parameter node of a unit -/

section Setup

variable {s : Settings} {h : Host} {u : LoadedUnit} {p : ValidatedPipeline}
  {inputs outputs : List SlotKey}

/-- A fresh parameter node: the inputs and the outputs. -/
def freshNode (g : PipelineGraph) (inputs outputs : List SlotKey) : Entries :=
  [("inputs", .map (Keyed.ofList (g.freshSlots inputs))),
    ("outputs", .map (Keyed.ofList (g.freshSlots outputs)))]

/-- The function of a unit that makes a fresh parameter node comes to one. -/
theorem comes_setup {name : String} {parameters widget : Piece} {pieces : List Piece} {w : World}
    (holds : env.Holds pieces) (m : parameters ∈ pieces) (m' : widget ∈ pieces)
    (first : parameterPiece name p = .ok parameters) (third : widgetPiece name p s = .ok widget)
    (ordered : p.graph.orderedInputs = .ok inputs)
    (ordered' : p.graph.orderedOutputs = .ok outputs)
    (supports : env.Supports
      ((inputs ++ outputs).flatMap fun key => (p.graph.slotType key).nested)) :
    env.Provides (setupFunction name) ∧ Yields.Comes env (setupFunction name) [] w
      (.ok (.map (p.graph.freshNode inputs outputs))) w := by
  have provides : ∀ piece ∈ pieces, ∀ f ∈ piece.functions, env.Provides f :=
    fun piece m f there => holds.provides f (List.mem_flatMap.2 ⟨piece, m, there⟩)
  have lacks : env.Lacks "parse_float" := holds.lacks _ (by decide)
  obtain ⟨inputs', outputs', e, e', rfl⟩ := exists_parameterPiece first
  cases ordered.symm.trans e
  cases ordered'.symm.trans e'
  obtain ⟨inputs', outputs', e, e', rfl⟩ := exists_widgetPiece third
  cases ordered.symm.trans e
  cases ordered'.symm.trans e'
  rw [List.flatMap_append] at supports
  obtain ⟨ins, fresh, yields⟩ :=
    exists_packFields (supports.mono (List.subset_append_left _ _)) lacks
  obtain ⟨outs, fresh', yields'⟩ :=
    exists_packFields (supports.mono (List.subset_append_right _ _)) lacks
  have packs := provides _ m
  simp only [Piece.functions, List.filterMap_cons, Item.function?, List.filterMap_nil,
    List.forall_mem_cons] at packs
  obtain ⟨inputsPack, outputsPack, bothPack, -⟩ := packs
  -- the pack of both is asked for at some depth, and asks for the two others one level deeper
  have both : ∀ depth, Yields (evalItems env (callFunction env depth)
      [.items [.str "inputs", .call (name ++ "Inputs") []],
        .items [.str "outputs", .call (name ++ "Outputs") []]]) [] w
      (.ok ([("inputs", DataType.pack (name ++ "Inputs") ins),
        ("outputs", DataType.pack (name ++ "Outputs") outs)].map Host.fieldDatum)) [] w := by
    intro depth
    have first : Yields (evalExpr env (callFunction env depth) (.call (name ++ "Inputs") [])) [] w
        (.ok (.type (.pack (name ++ "Inputs") ins))) [] w :=
      .call_provided (f := packFunction (name ++ "Inputs") _) inputsPack .items_nil rfl
        (comes_packFunction fun _ => yields _ _ _)
    have second : Yields (evalExpr env (callFunction env depth) (.call (name ++ "Outputs") []))
        [] w (.ok (.type (.pack (name ++ "Outputs") outs))) [] w :=
      .call_provided (f := packFunction (name ++ "Outputs") _) outputsPack .items_nil rfl
        (comes_packFunction fun _ => yields' _ _ _)
    exact .items_cons (.array (.items_cons (.str _) (.items_cons first .items_nil)))
      (.items_cons (.array (.items_cons (.str _) (.items_cons second .items_nil))) .items_nil)
  have comes := comes_setupFunction rfl rfl bothPack (comes_packFunction both)
  have node : Keyed.ofList (DataType.initialFields
      [("inputs", DataType.pack (name ++ "Inputs") ins),
        ("outputs", DataType.pack (name ++ "Outputs") outs)]) =
          p.graph.freshNode inputs outputs := by
    have ascending : ["inputs", "outputs"].Pairwise (· < ·) := by decide
    simp only [DataType.initialFields, DataType.initial, fresh, fresh']
    exact Keyed.ofList_of_sorted (.of_keys ascending)
  rw [node] at comes
  refine ⟨provides _ m' _ ?_, comes⟩
  rw [Piece.functions, List.filterMap_cons, Item.function?, filterMap_function?]
  simp

/-- A unit makes a fresh parameter node: a map of the inputs and the outputs, with exactly one entry
for each overall input or output, which holds what a fresh slot of its type holds. The host stays as
it was. -/
theorem setup_fresh (c : g.Compiled h.registry s p u)
    (ordered : p.graph.orderedInputs = .ok inputs)
    (ordered' : p.graph.orderedOutputs = .ok outputs)
    (supports : (h.environment u.program).Supports
      ((inputs ++ outputs).flatMap fun key => (p.graph.slotType key).nested))
    (within : h.Within u "setup" []) :
    ∃ ins outs : Entries, h.setup u = (.ok [("inputs", .map ins), ("outputs", .map outs)], h) ∧
      ins.Perm (p.graph.freshSlots inputs) ∧ outs.Perm (p.graph.freshSlots outputs) := by
  obtain ⟨name, hasIcon, pieces, made, holds⟩ := c.exists_holds h.classes
  obtain ⟨-, parameters, run, widget, first, second, third, rfl⟩ := exists_unitPieces made
  obtain ⟨inputs', outputs', steps, returned, places, parts⟩ := exists_runParts second
  cases ordered.symm.trans parts.ordered
  cases ordered'.symm.trans parts.ordered'
  have m : parameters ∈ [metadataPiece name p h.registry s hasIcon, parameters, run, widget] := by
    simp
  have m' : widget ∈ [metadataPiece name p h.registry s hasIcon, parameters, run, widget] := by
    simp
  obtain ⟨⟨own, found, same, body⟩, comes⟩ :=
    comes_setup (w := h.world) holds m m' first third ordered ordered' supports
  have ran : Yields (Host.runFunctionOf (h.environment u.program) "setup" []) [] h.world
      (.ok (.map (p.graph.freshNode inputs outputs))) [] h.world :=
    holds.yields_runFunctionOf found (.callFunction same body comes)
  refine ⟨_, _, ?_,
    (namedKeys_of_orderedInputs c.wired parts.named ordered).perm_freshSlots c.wired (.inl rfl),
    (namedKeys_of_orderedOutputs c.wired parts.named ordered').perm_freshSlots c.wired (.inr rfl)⟩
  unfold Host.setup Host.callForMap
  rw [Host.call_eq ran within]
  rfl

end Setup

end PipelineGraph

end Pipewright
