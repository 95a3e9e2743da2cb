import Pipewright.Host.Basic
import Pipewright.Proofs.Host.Layout
import Pipewright.Proofs.Host.Statements
import Pipewright.Proofs.Keyed
import Pipewright.Proofs.Script.Data
import Pipewright.Proofs.Unit.Pieces

/-! # Metadata there and back
The function that tells the metadata of a unit is always read as a program, and what it tells is the
metadata, whatever the texts are. -/

namespace Pipewright

open Host (Environment Caller evalExpr evalItems evalEntries evalBlock evalStmt callFunction Eval)
open Script (Expr Function Program StartsExpr Lexes endsLine)

variable {env : Environment} {call : Caller}

/-! ## Reading -/

/-- A list of texts is data. -/
theorem isData_textsExpr (texts : List String) : (Metadata.textsExpr texts).IsData 1 := by
  refine .array fun item m => ?_
  obtain ⟨text, -, rfl⟩ := List.mem_map.1 m
  exact .str text

namespace Metadata

variable (m : Metadata)

/-- The entries of the map that spells the metadata. -/
def spelled : List (String × Expr) :=
  [("title", .str m.title), ("categories", textsExpr m.categories),
    ("dependencies", textsExpr m.dependencies), ("contributors", textsExpr m.contributors),
    ("help_text", .str m.helpText), ("acknowledgement_text", .str m.acknowledgement),
    ("icon", m.icon?.elim .unit Expr.str)]

/-- A list of texts as a value. -/
def textsDatum (texts : List String) : Datum := .array (texts.map Datum.text)

/-- The entries of the map that tells the metadata. -/
def told : Entries :=
  [("title", .text m.title), ("categories", textsDatum m.categories),
    ("dependencies", textsDatum m.dependencies), ("contributors", textsDatum m.contributors),
    ("help_text", .text m.helpText), ("acknowledgement_text", .text m.acknowledgement),
    ("icon", m.icon?.elim .unit Datum.text)]

/-- The map that spells the metadata is data. -/
theorem isData_spelled : (Expr.object .spread m.spelled).IsData 2 := by
  have text (text : String) : (Expr.str text).IsData 1 := (Expr.IsData.str text).mono (by decide)
  have icon : (m.icon?.elim .unit Expr.str).IsData 1 := by
    cases m.icon? with
    | none => exact Expr.IsData.unit.mono (by decide)
    | some icon => exact text icon
  have values : ∀ p ∈ m.spelled, p.2.IsData 1 := by
    unfold spelled
    simp only [List.forall_mem_cons]
    exact ⟨text _, isData_textsExpr _, isData_textsExpr _, isData_textsExpr _, text _, text _, icon,
      fun entry m => absurd m List.not_mem_nil⟩
  have keys : ∀ key ∈ m.spelled.map Prod.fst, (Script.keyToken key).isNamed = true := by
    unfold spelled
    simp only [List.map_cons, List.map_nil]
    decide
  exact .object values (by simp [spelled]) fun p there => keys _ (List.mem_map_of_mem there)

/-- The text of the function that tells the metadata is a program. -/
theorem ofText?_code (width : Nat) :
    Program.ofText? (m.code (String.ofList (List.replicate width ' '))) =
      some ⟨[m.function.flat], []⟩ :=
  Script.ofText?_data (Script.isBlank_spaces width) (Script.inLine_spaces width) (by decide)
    (by decide) (isLegible_metadata m) m.isData_spelled (by decide)

/-! ## Evaluation -/

/-- The value of a list of texts. -/
theorem evalExpr_textsExpr (texts : List String) :
    evalExpr env call (textsExpr texts) = pure (textsDatum texts) := by
  have items : evalItems env call (texts.map Expr.str) = pure (texts.map Datum.text) := by
    induction texts with
    | nil =>
      unfold evalItems
      rfl
    | cons text texts ih =>
      rw [List.map_cons, evalItems, ih]
      unfold evalExpr
      rfl
  unfold textsExpr Expr.items evalExpr
  rw [items]
  rfl

/-- The value of the map that spells the metadata. -/
theorem evalExpr_spelled :
    evalExpr env call (.object .spread m.spelled) = pure (.map (Keyed.ofList m.told)) := by
  have icon : evalExpr env call (m.icon?.elim .unit Expr.str) =
      pure (m.icon?.elim .unit Datum.text) := by
    cases m.icon? <;>
    · unfold Option.elim evalExpr
      rfl
  have text (text : String) : evalExpr env call (.str text) = pure (.text text) := by
    unfold evalExpr
    rfl
  have entries : evalEntries env call m.spelled = pure m.told := by
    unfold spelled
    simp only [evalEntries, text, icon, evalExpr_textsExpr, pure_bind]
    rfl
  rw [evalExpr, entries]
  rfl

end Metadata

/-- A function that returns the value of an expression that always has one. -/
theorem Host.call_constantFunction {u : LoadedUnit} {name : String} {e : Expr} {d : Datum}
    (program : u.program = ⟨[(Script.constantFunction name e).flat], []⟩)
    (value : ∀ (env : Environment) (call : Caller), evalExpr env call e = pure d) (h : Host) :
    h.call u name [] = (.ok d, h) := by
  have found : u.program.function? name 0 = some (Script.constantFunction name e).flat := by
    rw [program]
    simp [Program.function?, Script.constantFunction, Function.flat, Function.arity]
  have body : u.program.body = [] := by rw [program]
  let env := h.environment u.program
  -- the program has no statements outside its function
  have statements : runStatements env = pure .unit := by
    show evalBlock _ _ _ u.program.body = _
    rw [body]
    unfold evalBlock
    rfl
  have block : evalBlock env (callFunction env 63) .unit
      (Script.constantFunction name e).flat.body = (do tick; pure d) := by
    show evalBlock _ _ _ [.value e.flat] = _
    rw [evalBlock_cons rfl, evalStmt, evalExpr_flat, value]
    unfold evalBlock
    rfl
  have call : callFunction env maxCalls (Script.constantFunction name e).flat [] =
      withScope [] (asFunction (do tick; pure d)) := by
    rw [← block]
    rfl
  have all : runFunctionOf env name [] = withScope [] (asFunction (do tick; pure d)) := by
    rw [← call]
    unfold runFunctionOf
    rw [statements]
    show (do callFunction env maxCalls (← require (u.program.function? name 0)) []) = _
    rw [found]
    rfl
  show ((h.run (runFunctionOf env name [])).1.mapError _, (h.run (runFunctionOf env name [])).2) = _
  rw [all]
  rfl

namespace Metadata

variable (m : Metadata)

/-! ## Reading back -/

/-- A list of texts is read back. -/
theorem textItems_map (key : String) (texts : List String) :
    textItems key (texts.map Datum.text) = .ok texts := by
  induction texts with
  | nil => rfl
  | cons text texts ih =>
    rw [List.map_cons, textItems, ih]
    rfl

/-- The metadata that is told is read back. -/
theorem ofEntries_told : ofEntries (Keyed.ofList m.told) = .ok m := by
  have once : (Keyed.keys m.told).Nodup := by simp [told, Keyed.keys]
  have found (key : String) : Keyed.lookup key (Keyed.ofList m.told) = Keyed.lookup key m.told :=
    Keyed.lookup_ofList once key
  have icon : iconField (Keyed.ofList m.told) = .ok m.icon? := by
    have value : Keyed.lookup "icon" m.told = some (m.icon?.elim .unit Datum.text) := rfl
    unfold iconField textField
    rw [found, value]
    cases m.icon? <;> rfl
  have text (key text : String) (h : Keyed.lookup key m.told = some (.text text)) :
      textField (Keyed.ofList m.told) key = .ok text := by
    unfold textField
    rw [found, h]
    rfl
  have texts (key : String) (texts : List String)
      (h : Keyed.lookup key m.told = some (textsDatum texts)) :
      textsField (Keyed.ofList m.told) key = .ok texts := by
    unfold textsField
    rw [found, h]
    exact textItems_map key texts
  unfold ofEntries
  rw [icon, text "title" m.title rfl, texts "categories" m.categories rfl,
    texts "dependencies" m.dependencies rfl, texts "contributors" m.contributors rfl,
    text "help_text" m.helpText rfl, text "acknowledgement_text" m.acknowledgement rfl]
  rfl

/-- Metadata is what it was after it has been told by the program of its text. -/
theorem exists_metadata_eq (m : Metadata) (width : Nat) (name run : String) :
    ∃ u, LoadedUnit.load name (m.code (String.ofList (List.replicate width ' '))) run = .ok u ∧
      ∀ h : Host, h.metadata u = (.ok m, h) := by
  let u : LoadedUnit :=
    ⟨name, m.code (String.ofList (List.replicate width ' ')), ⟨[m.function.flat], []⟩, run⟩
  refine ⟨u, ?_, fun h => ?_⟩
  · unfold LoadedUnit.load
    rw [m.ofText?_code]
  · have called : h.call u "module_info" [] = (.ok (.map (Keyed.ofList m.told)), h) :=
      Host.call_constantFunction rfl (fun _ _ => m.evalExpr_spelled) h
    unfold Host.metadata Host.callForMap
    rw [called]
    simp only [Except.bind, ofEntries_told]
    rfl

end Metadata

end Pipewright
