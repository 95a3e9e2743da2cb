import Pipewright.Proofs.Unit.Written

/-! # The pieces of a unit read as they are written
Headings and remarks are lines, and all functions are legible. -/

namespace Pipewright

open Script (Expr Function Stmt isPlainWord isNameWord isIdentifier isLine
  isPlainWord_of_isIdentifier isPlainWord_of_isNameWord)
open Script.Stmt (IsStep)

/-! ## Settings -/

/-- Names of functions of the host that generated programs call. -/
def hostFunctions : List String :=
  ["type_of", "values", "parse_float", "invoke", "report_progress", "get_sub_callback"]

/-- Settings whose texts do no harm in a program: the function that runs a unit has a name that may
be used, and is none of the functions of the host; the rest of the first lines are lines. -/
structure Settings.Usable (s : Settings) : Prop where
  /-- The function can be named. -/
  named : isIdentifier s.runFunction = true
  /-- It hides no function of the host. -/
  free : s.runFunction ∉ hostFunctions
  /-- The extension is a line. -/
  extension : isLine s.fileExtension = true
  /-- The name of the generator is a line. -/
  generator : isLine s.generatorName = true

/-- The settings of whoever chooses nothing can be used. -/
theorem Settings.usable_standard : Settings.standard.Usable :=
  ⟨by decide +kernel, by decide +kernel, by decide +kernel, by decide +kernel⟩

/-! ## Items -/

/-- Whether an item of a piece reads as it is written. -/
def Item.isLegible : Item → Bool
  | .heading title => isLine title
  | .function f => f.isLegible
  | .remarked remark f => isLine remark && f.isLegible

/-- A function without parameters whose only statement is a legible expression. -/
theorem isLegible_constantFunction {name : String} {e : Expr}
    (word : isPlainWord name.toList = true) (h : e.isLegible = true) :
    (Function.mk name [] [.value e]).isLegible = true := by
  unfold Script.Function.isLegible
  rw [word, Stmt.areLegible_value h]
  rfl

/-- The name of an identifier with another word behind it is a line. -/
theorem isLine_append_of_isIdentifier {name suffix : String} (h : isIdentifier name = true)
    (h' : isLine suffix = true) : isLine (name ++ suffix) = true :=
  Script.isLine_append (Script.isLine_of_isPlainWord (isPlainWord_of_isIdentifier h)) h'

section Pieces

variable {name : String} {p : ValidatedPipeline} {r : Registry} {s : Settings} {piece : Piece}

/-- The function that tells the metadata is legible. -/
theorem isLegible_metadata (m : Metadata) : m.function.isLegible = true := by
  have texts : ∀ texts, (Metadata.textsExpr texts).isLegible = true := fun texts =>
    Script.Expr.isLegible_texts .inline texts
  refine isLegible_constantFunction (by decide) (Script.Expr.isLegible_object ?_)
  simp only [List.forall_mem_cons]
  refine ⟨rfl, texts _, texts _, texts _, rfl, rfl, ?_, fun entry m => absurd m List.not_mem_nil⟩
  cases m.icon? <;> rfl

/-- The items of the piece that tells the metadata are legible. -/
theorem isLegible_metadataPiece (named : isIdentifier name = true) (hasIcon : Bool) :
    ∀ item ∈ (metadataPiece name p r s hasIcon).items, item.isLegible = true :=
  List.forall_mem_cons.2 ⟨isLine_append_of_isIdentifier named (by decide),
    List.forall_mem_singleton.2 (isLegible_metadata _)⟩

/-- A function that returns a pack of legible fields is legible. -/
theorem isLegible_packFunction {fields : List Expr} (word : isPlainWord name.toList = true)
    (h : ∀ e ∈ fields, e.isLegible = true) : (packFunction name fields).isLegible = true := by
  have inner : (Expr.array (if fields.isEmpty then .inline else .spread) fields).isLegible = true :=
    Script.Expr.isLegible_array h
  exact isLegible_constantFunction word (HostModule.isLegible_call .types (by decide)
    (List.forall_mem_cons.2 ⟨rfl, List.forall_mem_singleton.2 inner⟩))

/-- The fields for some nodes are legible. -/
theorem isLegible_packFields (g : PipelineGraph) (keys : List SlotKey) :
    ∀ e ∈ g.packFields keys, e.isLegible = true := by
  intro e m
  obtain ⟨key, -, rfl⟩ := List.mem_map.1 m
  exact Script.Expr.isLegible_array
    (List.forall_mem_cons.2 ⟨rfl, List.forall_mem_singleton.2 (DataType.isLegible_spelling _)⟩)

/-- What the piece that declares the parameter node is made of. -/
theorem exists_parameterPiece (h : parameterPiece name p = .ok piece) :
    ∃ inputs outputs, p.graph.orderedInputs = .ok inputs ∧ p.graph.orderedOutputs = .ok outputs ∧
      piece = ⟨cleanImports (p.graph.importsOf (inputs ++ outputs)),
        [.heading (name ++ "Inputs"),
          .function (packFunction (name ++ "Inputs") (p.graph.packFields inputs)),
          .heading (name ++ "Outputs"),
          .function (packFunction (name ++ "Outputs") (p.graph.packFields outputs)),
          .heading (name ++ "ParameterNode"),
          .function (packFunction (name ++ "ParameterNode")
            [.items [.str "inputs", .call (name ++ "Inputs") []],
              .items [.str "outputs", .call (name ++ "Outputs") []]])]⟩ := by
  unfold parameterPiece at h
  simp only [bind, Except.bind, pure, Except.pure] at h
  cases ordered : p.graph.orderedInputs with
  | error fault =>
    rw [ordered] at h
    cases h
  | ok inputs =>
  cases ordered' : p.graph.orderedOutputs with
  | error fault =>
    rw [ordered, ordered'] at h
    cases h
  | ok outputs =>
    simp only [ordered, ordered', Except.ok.injEq] at h
    exact ⟨inputs, outputs, rfl, rfl, h.symm⟩

/-- The items of the piece that declares the parameter node are legible. -/
theorem isLegible_parameterPiece (named : isIdentifier name = true)
    (h : parameterPiece name p = .ok piece) : ∀ item ∈ piece.items, item.isLegible = true := by
  have words : ∀ suffix ∈ packEndings, isNameWord (name ++ suffix) = true := fun suffix m =>
    isNameWord_pack named m
  have plain : ∀ suffix ∈ packEndings, isPlainWord (name ++ suffix).toList = true :=
    fun suffix m => isPlainWord_of_isNameWord (words suffix m)
  have lines : ∀ suffix ∈ packEndings, isLine (name ++ suffix) = true := fun suffix m =>
    Script.isLine_of_isPlainWord (plain suffix m)
  have field : ∀ label, ∀ suffix ∈ packEndings,
      (Expr.items [.str label, .call (name ++ suffix) []]).isLegible = true := fun label suffix m =>
    Script.Expr.isLegible_array (List.forall_mem_cons.2 ⟨rfl, List.forall_mem_singleton.2
      (Script.Expr.isLegible_call (words suffix m) fun e m => absurd m List.not_mem_nil)⟩)
  obtain ⟨inputs, outputs, -, -, rfl⟩ := exists_parameterPiece h
  simp only [List.forall_mem_cons]
  exact ⟨lines "Inputs" (by decide),
    isLegible_packFunction (plain "Inputs" (by decide)) (isLegible_packFields _ _),
    lines "Outputs" (by decide),
    isLegible_packFunction (plain "Outputs" (by decide)) (isLegible_packFields _ _),
    lines "ParameterNode" (by decide),
    isLegible_packFunction (plain "ParameterNode" (by decide))
      (List.forall_mem_cons.2 ⟨field _ "Inputs" (by decide),
        List.forall_mem_singleton.2 (field _ "Outputs" (by decide))⟩),
    fun item m => absurd m List.not_mem_nil⟩

end Pieces

/-! ## The piece that runs the pipeline -/

namespace PipelineGraph

variable {g : PipelineGraph} {r : Registry} {name : String} {s : Settings} {piece : Piece}
  {inputs outputs : List SlotKey} {steps : List Stmt} {returned : List Binding}
  {places : List Access}

/-- The items of a piece that runs a pipeline. -/
theorem RunParts.items_eq (h : runPiece name ⟨g⟩ r s = .ok piece)
    (parts : g.RunParts r name s piece inputs outputs steps returned places) :
    piece.items = [Item.heading (name ++ "Logic"), .function memberFunction,
      .function referencedFunction] ++
      (if 1 < returned.length then [Item.function (outputsFunction (name ++ "Outputs") outputs)]
        else []) ++
      match runFunctions s.runFunction (inputs.map SlotKey.slot) (runBody g steps
        (g.cleanupStmts places (returned.filterMap Binding.access?) inputs)
        (resultExpr (name ++ "Outputs") returned)) with
      | [] => []
      | first :: others =>
        .remarked (signatureRemark g s.runFunction (name ++ "Outputs") inputs outputs) first ::
          others.map .function := by
  have several := parts.several
  unfold runPiece at h
  simp only [bind, Except.bind, pure, Except.pure, parts.ordered, parts.ordered', parts.named,
    parts.generated, parts.bound, parts.managed] at h
  rw [if_neg (by omega)] at h
  rw [← Except.ok.inj h]
  rfl

/-- The texts that stand in remarks of a unit are lines: the names of the operations of inner steps,
and those of the types of overall inputs and outputs. -/
structure Lines (g : PipelineGraph) (r : Registry) : Prop where
  /-- The names of operations are lines. -/
  operations : ∀ i o, g.OperationAt r i o → isLine o.name = true
  /-- The names of types at both ends are lines. -/
  types : ∀ key ∈ g.keys, key.operation = none → ∀ t, g.datatype? key = some t →
    isLine t.display = true

/-- The remark that tells the types of the inputs and of what is returned is a line. -/
theorem isLine_signatureRemark {run outputsName : String} (run' : isLine run = true)
    (outputs' : isLine outputsName = true)
    (slots : ∀ key ∈ inputs, isIdentifier key.slot = true)
    (types : ∀ key ∈ inputs ++ outputs, ∀ t, g.datatype? key = some t → isLine t.display = true) :
    isLine (signatureRemark g run outputsName inputs outputs) = true := by
  have parameters : isLine (", ".intercalate (inputs.map fun key =>
      (g.datatype? key).elim key.slot fun t => key.slot ++ ": " ++ t.display)) = true := by
    refine Script.isLine_intercalate (by decide) fun line m => ?_
    obtain ⟨key, there, rfl⟩ := List.mem_map.1 m
    have slot := Script.isLine_of_isPlainWord (isPlainWord_of_isIdentifier (slots key there))
    cases e : g.datatype? key with
    | none => exact slot
    | some t =>
      exact Script.isLine_append (Script.isLine_append slot (by decide))
        (types key (List.mem_append_left _ there) t e)
  have front := Script.isLine_append (Script.isLine_append (Script.isLine_append run'
    (b := "(") (by decide)) parameters) (b := ") -> ") (by decide)
  refine Script.isLine_append front ?_
  -- a single output is named by its type, several ones by their pack
  rcases outputs with _ | ⟨single, _ | ⟨other, rest⟩⟩
  · exact outputs'
  · have shown := types single (by simp)
    show isLine ((g.datatype? single).elim "()" DataType.display) = true
    cases e : g.datatype? single with
    | none => exact (by decide : isLine "()" = true)
    | some t => exact shown t e
  · exact outputs'

/-- The functions that run a pipeline are legible. -/
theorem isLegible_runFunctions {run : String} {slots : List String} {body : List Stmt}
    (run' : isNameWord run = true) (slots' : ∀ slot ∈ slots, isNameWord slot = true)
    (body' : Stmt.areLegible body = true) :
    ∀ f ∈ runFunctions run slots body, f.isLegible = true := by
  have word := isPlainWord_of_isNameWord run'
  have passed : ∀ e ∈ slots.map Expr.var, e.isLegible = true := by
    intro e m
    obtain ⟨slot, there, rfl⟩ := List.mem_map.1 m
    exact slots' slot there
  have words : ∀ more, (∀ slot ∈ more, isPlainWord slot.toList = true) →
      (slots ++ more).all (isPlainWord ·.toList) = true := by
    intro more more'
    rw [List.all_append, Bool.and_eq_true, List.all_eq_true, List.all_eq_true]
    exact ⟨fun slot m => isPlainWord_of_isNameWord (slots' slot m), more'⟩
  have again : ∀ more : List Expr, (∀ e ∈ more, e.isLegible = true) →
      Stmt.areLegible [.value (.call run (slots.map Expr.var ++ more))] = true := fun more more' =>
    Stmt.areLegible_value (Script.Expr.isLegible_call run'
      (List.forall_mem_append.2 ⟨passed, more'⟩))
  have noop : (HostModule.progress.call "noop" []).isLegible = true :=
    HostModule.isLegible_call .progress (by decide) fun e m => absurd m List.not_mem_nil
  unfold runFunctions
  simp only [List.forall_mem_cons, Script.Function.isLegible, Bool.and_eq_true]
  refine ⟨⟨⟨word, ?_⟩, again _ ?_⟩, ⟨⟨word, words _ ?_⟩, again _ ?_⟩,
    ⟨⟨word, words _ ?_⟩, body'⟩, fun f m => absurd m List.not_mem_nil⟩
  · rw [List.all_eq_true]
    exact fun slot m => isPlainWord_of_isNameWord (slots' slot m)
  · exact List.forall_mem_cons.2 ⟨noop, List.forall_mem_singleton.2 rfl⟩
  · exact List.forall_mem_singleton.2 (by decide)
  · exact List.forall_mem_cons.2 ⟨by decide, List.forall_mem_singleton.2 rfl⟩
  · exact List.forall_mem_cons.2 ⟨by decide, List.forall_mem_singleton.2 (by decide)⟩

/-- The function that puts several outputs into a map is legible. -/
theorem isLegible_outputsFunction (word : isPlainWord name.toList = true)
    (slots : ∀ key ∈ outputs, isNameWord key.slot = true) :
    (outputsFunction name outputs).isLegible = true := by
  have body : (Expr.object .inline
      (outputs.map fun key => (key.slot, Expr.var key.slot))).isLegible = true := by
    refine Script.Expr.isLegible_object fun entry m => ?_
    obtain ⟨key, there, rfl⟩ := List.mem_map.1 m
    exact slots key there
  have parameters : (outputs.map SlotKey.slot).all (isPlainWord ·.toList) = true := by
    rw [List.all_map, List.all_eq_true]
    exact fun key m => isPlainWord_of_isNameWord (slots key m)
  unfold outputsFunction Script.Function.isLegible
  rw [word, parameters, Stmt.areLegible_value body]
  rfl

/-- The functions that every unit has are legible. -/
theorem isLegible_memberFunction : memberFunction.isLegible = true := by decide +kernel

theorem isLegible_referencedFunction : referencedFunction.isLegible = true := by decide +kernel

/-- The items of the piece that runs a pipeline are legible. -/
theorem isLegible_runPiece (w : g.Wired r) (built : r.Built) (named : isIdentifier name = true)
    (usable : s.Usable) (lines : g.Lines r) (h : runPiece name ⟨g⟩ r s = .ok piece) :
    ∀ item ∈ piece.items, item.isLegible = true := by
  obtain ⟨inputs, outputs, steps, returned, places, parts⟩ := exists_runParts h
  have first := namedKeys_of_orderedInputs w parts.named parts.ordered
  have last := namedKeys_of_orderedOutputs w parts.named parts.ordered'
  have inputs' : ∀ key ∈ inputs, isIdentifier key.slot = true := fun key m =>
    (nameFault?_eq_none_iff.1 (first.named key m)).1
  have outputs' : ∀ key ∈ outputs, isIdentifier key.slot = true := fun key m =>
    (nameFault?_eq_none_iff.1 (last.named key m)).1
  have run' : isNameWord s.runFunction = true := isNameWord_of_isIdentifier usable.named
  have outputsName : isNameWord (name ++ "Outputs") = true := isNameWord_pack named (by decide)
  -- what is looked at is a variable of a step or an overall input, so it can be named
  have accesses : ∀ a ∈ returned.filterMap Binding.access?, a.IsNamed := by
    intro a m
    obtain ⟨b, m', e⟩ := List.mem_filterMap.1 m
    obtain ⟨key, -, bound⟩ := (mem_of_mapM_eq_ok parts.bound).1 m'
    cases b with
    | literal v => cases e
    | access a' =>
      cases e
      exact isNamed_of_binding w parts.named bound
  have managed : ∀ a ∈ places, a.IsNamed := by
    intro a m
    obtain ⟨i, o, -, path, -, rfl⟩ := (mem_managed_iff w built parts.managed).1 m
    exact isNameWord_returnVariable _ _
  have result : (resultExpr (name ++ "Outputs") returned).isLegible = true := by
    have each : ∀ b ∈ returned, b.expr.isLegible = true := by
      intro b m
      obtain ⟨key, -, bound⟩ := (mem_of_mapM_eq_ok parts.bound).1 m
      exact isLegible_of_binding w parts.named bound
    unfold resultExpr
    split
    · exact each _ List.mem_cons_self
    · refine Script.Expr.isLegible_call outputsName fun e m => ?_
      obtain ⟨b, m', rfl⟩ := List.mem_map.1 m
      exact each b m'
  have body := areLegible_runBody (g := g)
    (isStep_of_innerStmts w parts.named lines.operations parts.generated)
    (isStep_cleanupStmts (g := g) managed accesses fun key m =>
      isNameWord_of_isIdentifier (inputs' key m)) result
  have slots : ∀ slot ∈ inputs.map SlotKey.slot, isNameWord slot = true := by
    intro slot m
    obtain ⟨key, there, rfl⟩ := List.mem_map.1 m
    exact isNameWord_of_isIdentifier (inputs' key there)
  have runs := isLegible_runFunctions run' slots body
  have remark : isLine (signatureRemark g s.runFunction (name ++ "Outputs") inputs outputs) = true := by
    refine isLine_signatureRemark
      (Script.isLine_of_isPlainWord (isPlainWord_of_isIdentifier usable.named))
      (isLine_append_of_isIdentifier named (by decide)) inputs' fun key m => ?_
    -- the types in the remark are those of both ends, where they are known to be lines
    have atEnd : key ∈ g.keys ∧ g.AtEnd key := by
      rcases List.mem_append.1 m with m | m
      · obtain ⟨there, step⟩ := List.mem_filter.1 (first.perm.mem_iff.1 m)
        exact ⟨there, .inl (beq_iff_eq.1 step)⟩
      · obtain ⟨there, step⟩ := List.mem_filter.1 (last.perm.mem_iff.1 m)
        exact ⟨there, .inr ((w.step_eq_lastStep_iff there).1 (beq_iff_eq.1 step))⟩
    exact lines.types key atEnd.1 (w.ends_bare key atEnd.1 atEnd.2)
  rw [parts.items_eq h]
  refine List.forall_mem_append.2 ⟨List.forall_mem_append.2 ⟨?_, ?_⟩, ?_⟩
  · exact List.forall_mem_cons.2 ⟨isLine_append_of_isIdentifier named (by decide),
      List.forall_mem_cons.2 ⟨isLegible_memberFunction,
        List.forall_mem_singleton.2 isLegible_referencedFunction⟩⟩
  · split
    · exact List.forall_mem_singleton.2 (isLegible_outputsFunction
        (isPlainWord_of_isNameWord outputsName) fun key m =>
          isNameWord_of_isIdentifier (outputs' key m))
    · exact fun item m => absurd m List.not_mem_nil
  · obtain ⟨initial, others⟩ := List.forall_mem_cons.1 runs
    refine List.forall_mem_cons.2 ⟨?_, fun item m => ?_⟩
    · exact Bool.and_eq_true_iff.2 ⟨remark, initial⟩
    · obtain ⟨f, m', rfl⟩ := List.mem_map.1 m
      exact others f m'

end PipelineGraph

/-! ## The widget -/

namespace OutputCopy

/-- A copy from and to variables that can stand in expressions. -/
def IsNamed (c : OutputCopy) : Prop := c.source.IsNamed ∧ c.target.IsNamed

/-- A copy between such variables is legible. -/
theorem isStep_stmt {c : OutputCopy} (h : c.IsNamed) : c.stmt.IsStep := by
  have source := c.source.isLegible_expr h.1
  have target := c.target.isLegible_expr h.2
  refine .assign ?_ ?_
  · rw [Access.expr_place]
    exact target
  · split
    · exact Script.Expr.isLegible_call (by decide)
        (List.forall_mem_cons.2 ⟨source, List.forall_mem_singleton.2 target⟩)
    · exact source

end OutputCopy

mutual

/-- The copies for a result are from and to the variables that it is in and belongs to. -/
theorem isNamed_outputCopies {source target : Access} (h : source.IsNamed) (h' : target.IsNamed) :
    (t : DataType) → ∀ c ∈ outputCopies source target t, c.IsNamed
  | .annotated inner _ => isNamed_outputCopies h h' inner
  | .node _ => List.forall_mem_singleton.2 ⟨h, h'⟩
  | .pack name fields => by
    unfold outputCopies
    split
    · exact List.forall_mem_singleton.2 ⟨h, h'⟩
    · exact isNamed_outputCopiesOfFields h h' fields
  | .unit => List.forall_mem_singleton.2 ⟨h, h'⟩
  | .int => List.forall_mem_singleton.2 ⟨h, h'⟩
  | .float => List.forall_mem_singleton.2 ⟨h, h'⟩
  | .str => List.forall_mem_singleton.2 ⟨h, h'⟩
  | .bool => List.forall_mem_singleton.2 ⟨h, h'⟩
  | .progress => List.forall_mem_singleton.2 ⟨h, h'⟩
  | .list _ => List.forall_mem_singleton.2 ⟨h, h'⟩
  | .dict _ _ => List.forall_mem_singleton.2 ⟨h, h'⟩
  | .tuple _ => List.forall_mem_singleton.2 ⟨h, h'⟩
  | .external _ => List.forall_mem_singleton.2 ⟨h, h'⟩

/-- The copies for the fields of a pack are from and to the same variables. -/
theorem isNamed_outputCopiesOfFields {source target : Access} (h : source.IsNamed)
    (h' : target.IsNamed) : (fields : List (String × DataType)) →
      ∀ c ∈ outputCopiesOfFields source target fields, c.IsNamed
  | [] => fun c m => absurd m List.not_mem_nil
  | (_, t) :: fields => by
    unfold outputCopiesOfFields
    exact List.forall_mem_append.2
      ⟨@isNamed_outputCopies (source.field _) (target.field _) h h' t,
        isNamed_outputCopiesOfFields h h' fields⟩

end

/-- The copies for all outputs are from and to variables that can stand in expressions. -/
theorem isNamed_allCopies (g : PipelineGraph) (outputs : List SlotKey) :
    ∀ c ∈ allCopies g outputs, c.IsNamed := by
  intro c m
  obtain ⟨key, -, m⟩ := List.mem_flatMap.1 m
  have target : (slotAccess "outputs" key).IsNamed := (by decide : isNameWord "outputs" = true)
  refine isNamed_outputCopies ?_ target _ c m
  have source : isNameWord "output_value" = true := by decide
  split
  · exact source
  · exact source

/-- The statements that make the copies are legible. -/
theorem isStep_copyStmts {copies : List OutputCopy} (h : ∀ c ∈ copies, c.IsNamed) :
    ∀ stmt ∈ copyStmts copies, stmt.IsStep := by
  have made : ∀ stmt ∈ copies.map OutputCopy.stmt, stmt.IsStep := by
    intro stmt m
    obtain ⟨c, there, rfl⟩ := List.mem_map.1 m
    exact OutputCopy.isStep_stmt (h c there)
  have release : IsStep (.run (.call "_release_nodes" [.var "_sources", .var "_keep"])) :=
    .run (Script.Expr.isLegible_call (by decide)
      (List.forall_mem_cons.2 ⟨by decide, List.forall_mem_singleton.2 (by decide)⟩))
  have sources : (Expr.items ((copies.filter OutputCopy.isNode).map
      fun c => c.source.expr)).isLegible = true := by
    refine Script.Expr.isLegible_array fun e m => ?_
    obtain ⟨c, there, rfl⟩ := List.mem_map.1 m
    exact c.source.isLegible_expr (h c (List.mem_filter.1 there).1).1
  have targets : (Expr.items ((copies.filter OutputCopy.isNode).map
      fun c => c.target.expr)).isLegible = true := by
    refine Script.Expr.isLegible_array fun e m => ?_
    obtain ⟨c, there, rfl⟩ := List.mem_map.1 m
    exact c.target.isLegible_expr (h c (List.mem_filter.1 there).1).2
  have handler : Stmt.areLegible [.run (.call "_release_nodes" [.var "_sources", .var "_keep"]),
      .raise (.var "err")] = true :=
    Stmt.areLegible_of (List.forall_mem_cons.2 ⟨release,
      List.forall_mem_singleton.2 (.raise (by decide))⟩)
  unfold copyStmts
  by_cases none : (copies.filter OutputCopy.isNode).isEmpty = true
  · simp only [if_pos none]
    exact made
  · simp only [if_neg none, List.forall_mem_cons]
    exact ⟨.declare (by decide) sources, .attempt (by decide) (Stmt.areLegible_of made) handler,
      .assign (by decide) targets, release, fun stmt m => absurd m List.not_mem_nil⟩

/-- The functions that every widget has are legible. -/
theorem isLegible_copyFunction : copyFunction.isLegible = true := by decide +kernel

theorem isLegible_holdsFunction : holdsFunction.isLegible = true := by decide +kernel

theorem isLegible_releaseFunction : releaseFunction.isLegible = true := by decide +kernel

/-- The functions that run the pipeline on a parameter node are legible. -/
theorem isLegible_widgetFunctions {run : String} (word : isNameWord run = true) (g : PipelineGraph)
    (inputs outputs : List SlotKey) :
    ∀ f ∈ widgetFunctions g run inputs outputs, f.isLegible = true := by
  have kept : (Expr.items ((keptAccesses g inputs).map Access.expr)).isLegible = true := by
    refine Script.Expr.isLegible_array fun e m => ?_
    obtain ⟨a, there, rfl⟩ := List.mem_map.1 m
    refine a.isLegible_expr ?_
    obtain ⟨key, -, m⟩ := List.mem_flatMap.1 there
    split at m
    · cases m
    · obtain ⟨path, -, rfl⟩ := List.mem_map.1 m
      exact (by decide : isNameWord "inputs" = true)
  have called : (Expr.call run (inputs.map (fun key => (slotAccess "inputs" key).expr) ++
      [Expr.var callbackName])).isLegible = true := by
    refine Script.Expr.isLegible_call word (List.forall_mem_append.2 ⟨fun e m => ?_,
      List.forall_mem_singleton.2 (by decide)⟩)
    obtain ⟨key, -, rfl⟩ := List.mem_map.1 m
    exact Access.isLegible_expr (by decide : isNameWord "inputs" = true)
  have noop : (HostModule.progress.call "noop" []).isLegible = true :=
    HostModule.isLegible_call .progress (by decide) fun e m => absurd m List.not_mem_nil
  have short : Stmt.areLegible [.value (.call "on_run" [.var "parameter_node",
      HostModule.progress.call "noop" []])] = true :=
    Stmt.areLegible_value (Script.Expr.isLegible_call (by decide)
      (List.forall_mem_cons.2 ⟨by decide, List.forall_mem_singleton.2 noop⟩))
  have opening : ∀ stmt ∈ [Stmt.declare "inputs" (some (.field (.var "parameter_node") "inputs")),
      .declare "outputs" (some (.field (.var "parameter_node") "outputs")),
      .declare "_keep" (some (.items ((keptAccesses g inputs).map Access.expr))),
      .declare "output_value" (some (.call run
        (inputs.map (fun key => (slotAccess "inputs" key).expr) ++ [Expr.var callbackName])))],
      stmt.IsStep := by
    simp only [List.forall_mem_cons]
    exact ⟨.declare (by decide) (by decide), .declare (by decide) (by decide),
      .declare (by decide) kept, .declare (by decide) called,
      fun stmt m => absurd m List.not_mem_nil⟩
  have closing : Stmt.areLegible [.assign ⟨"parameter_node", [.field "outputs"]⟩ .set
      (.var "outputs"), .value (.var "parameter_node")] = true := by decide
  -- the longer function opens, copies and closes; the shorter one only calls it
  have long := Stmt.areLegible_append opening (Stmt.areLegible_append
    (isStep_copyStmts (isNamed_allCopies g outputs)) closing)
  rw [← List.append_assoc] at long
  unfold widgetFunctions
  simp only [List.forall_mem_cons, Script.Function.isLegible, Bool.and_eq_true]
  exact ⟨⟨by decide, short⟩, ⟨by decide, long⟩, fun f m => absurd m List.not_mem_nil⟩

/-- What the piece that an interface calls is made of. -/
theorem exists_widgetPiece {name : String} {p : ValidatedPipeline} {s : Settings} {piece : Piece}
    (h : widgetPiece name p s = .ok piece) :
    ∃ inputs outputs, p.graph.orderedInputs = .ok inputs ∧ p.graph.orderedOutputs = .ok outputs ∧
      piece = ⟨importLines [.progress, .scene], .heading (name ++ "Widget") ::
        ([copyFunction, holdsFunction, releaseFunction, setupFunction name] ++
          widgetFunctions p.graph s.runFunction inputs outputs).map .function⟩ := by
  unfold widgetPiece at h
  simp only [bind, Except.bind, pure, Except.pure] at h
  cases ordered : p.graph.orderedInputs with
  | error fault =>
    rw [ordered] at h
    cases h
  | ok inputs =>
  cases ordered' : p.graph.orderedOutputs with
  | error fault =>
    rw [ordered, ordered'] at h
    cases h
  | ok outputs =>
    simp only [ordered, ordered', Except.ok.injEq] at h
    exact ⟨inputs, outputs, rfl, rfl, h.symm⟩

/-- The items of the piece that an interface calls are legible. -/
theorem isLegible_widgetPiece {name : String} {p : ValidatedPipeline} {s : Settings} {piece : Piece}
    (named : isIdentifier name = true) (usable : s.Usable) (h : widgetPiece name p s = .ok piece) :
    ∀ item ∈ piece.items, item.isLegible = true := by
  have setup : (setupFunction name).isLegible = true := by
    have pack : (Expr.call (name ++ "ParameterNode") []).isLegible = true :=
      Script.Expr.isLegible_call (isNameWord_pack named (by decide))
        fun e m => absurd m List.not_mem_nil
    exact isLegible_constantFunction (by decide) (HostModule.isLegible_call .types (by decide)
      (List.forall_mem_singleton.2 pack))
  obtain ⟨inputs, outputs, -, -, rfl⟩ := exists_widgetPiece h
  refine List.forall_mem_cons.2 ⟨isLine_append_of_isIdentifier named (by decide), fun item m => ?_⟩
  obtain ⟨f, there, rfl⟩ := List.mem_map.1 m
  have all : ∀ f ∈ [copyFunction, holdsFunction, releaseFunction, setupFunction name],
      f.isLegible = true := by
    simp only [List.forall_mem_cons]
    exact ⟨isLegible_copyFunction, isLegible_holdsFunction, isLegible_releaseFunction, setup,
      fun f m => absurd m List.not_mem_nil⟩
  exact List.forall_mem_append.2 ⟨all, isLegible_widgetFunctions
    (isNameWord_of_isIdentifier usable.named) _ _ _⟩ f there

/-! ## All pieces -/

section Unit

variable {name : String} {p : ValidatedPipeline} {r : Registry} {s : Settings} {hasIcon : Bool}
  {pieces : List Piece}

/-- The pieces of a unit, which has a name that may be used. -/
theorem exists_unitPieces (h : unitPieces name p r s hasIcon = .ok pieces) :
    isIdentifier name = true ∧ ∃ parameters run widget, parameterPiece name p = .ok parameters ∧
      runPiece name p r s = .ok run ∧ widgetPiece name p s = .ok widget ∧
      pieces = [metadataPiece name p r s hasIcon, parameters, run, widget] := by
  unfold unitPieces at h
  split at h
  next named =>
    simp only [bind, Except.bind, pure, Except.pure] at h
    cases parameters : parameterPiece name p with
    | error fault =>
      rw [parameters] at h
      cases h
    | ok first =>
    cases run : runPiece name p r s with
    | error fault =>
      rw [parameters, run] at h
      cases h
    | ok second =>
    cases widget : widgetPiece name p s with
    | error fault =>
      rw [parameters, run, widget] at h
      cases h
    | ok third =>
      simp only [parameters, run, widget, Except.ok.injEq] at h
      exact ⟨named, first, second, third, rfl, rfl, rfl, h.symm⟩
  · cases h

/-- The items of all pieces of a unit are legible. -/
theorem isLegible_unitPieces {g : PipelineGraph} (w : g.Wired r) (built : r.Built)
    (usable : s.Usable) (lines : g.Lines r) (h : unitPieces name ⟨g⟩ r s hasIcon = .ok pieces) :
    ∀ piece ∈ pieces, ∀ item ∈ piece.items, item.isLegible = true := by
  obtain ⟨named, parameters, run, widget, first, second, third, rfl⟩ := exists_unitPieces h
  simp only [List.forall_mem_cons]
  exact ⟨isLegible_metadataPiece named hasIcon, isLegible_parameterPiece named first,
    PipelineGraph.isLegible_runPiece w built named usable lines second,
    isLegible_widgetPiece named usable third, fun piece m => absurd m List.not_mem_nil⟩

end Unit

end Pipewright
