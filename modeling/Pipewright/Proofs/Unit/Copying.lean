import Pipewright.Proofs.Unit.Bindings
import Pipewright.Proofs.Unit.Release

/-! # The statements that copy results to outputs
They make the copies one after another. When all are made, the nodes in the results are removed that
neither the inputs nor the outputs hold; when one fails, those are that the inputs do not hold, and
the failure is raised again. -/

namespace Pipewright

open Script (Expr Stmt)

/-- A copy leads from the results to the outputs. -/
structure OutputCopy.Based (c : OutputCopy) : Prop where
  /-- It takes what it copies from the results. -/
  source : c.source.base = "output_value"
  /-- It makes the copy in the outputs. -/
  target : c.target.base = "outputs"

/-- The copies for all outputs lead from the results to the outputs. -/
theorem PipelineGraph.based_allCopies (g : PipelineGraph) (outputs : List SlotKey) :
    ∀ c ∈ allCopies g outputs, c.Based := by
  intro c m
  obtain ⟨key, -, path, taken, belongs, -⟩ := exists_of_mem_allCopies m
  refine ⟨?_, by rw [belongs]; rfl⟩
  rw [taken]
  unfold sourceAccess
  split <;> rfl

namespace Host

variable {env : Environment} {call : Caller} {s : Entries} {w : World} {depth : Nat}

/-! ## Places -/

/-- What is accessed is found in a variable. -/
theorem yields_access {a : Access} {d : Datum} (there : Keyed.lookup a.base s = some d) :
    Yields (evalExpr env call a.expr) s w (requireResult (d.fields? a.path)) s w :=
  yields_members a.path (.var there)

/-- The values at some places in one variable, before other values. -/
theorem yields_accesses {α : Type} {places : List α} {access : α → Access} {base : String}
    {d : Datum} {more : List Expr} {ds : List Datum}
    (based : ∀ a ∈ places, (access a).base = base) (there : Keyed.lookup base s = some d)
    (found : ∀ a ∈ places, ∃ part, d.fields? (access a).path = some part)
    (others : Yields (evalItems env call more) s w (.ok ds) s w) :
    Yields (evalItems env call (places.map (fun a => (access a).expr) ++ more)) s w
      (.ok (places.map (fun a => (d.fields? (access a).path).getD .unit) ++ ds)) s w := by
  induction places with
  | nil => exact others
  | cons a places ih =>
    obtain ⟨here, based'⟩ := List.forall_mem_cons.1 based
    obtain ⟨⟨part, leads⟩, found'⟩ := List.forall_mem_cons.1 found
    have first : Yields (evalExpr env call (access a).expr) s w
        (requireResult (d.fields? (access a).path)) s w := yields_access (here ▸ there)
    rw [List.map_cons, List.map_cons, leads]
    rw [leads] at first
    exact .items_cons first (ih based' found')

/-- An array of the values at some places in one variable. -/
theorem yields_accessItems {α : Type} {places : List α} {access : α → Access} {base : String}
    {d : Datum} (based : ∀ a ∈ places, (access a).base = base)
    (there : Keyed.lookup base s = some d)
    (found : ∀ a ∈ places, ∃ part, d.fields? (access a).path = some part) :
    Yields (evalExpr env call (.items (places.map fun a => (access a).expr))) s w
      (.ok (.array (places.map fun a => (d.fields? (access a).path).getD .unit))) s w := by
  have nothing : Yields (evalItems env call []) s w (.ok []) s w := .items_nil
  have values := yields_accesses based there found nothing
  rw [List.append_nil, List.append_nil] at values
  exact .array values

/-- The way to a place leads to where fields lead. -/
theorem yields_path (path : List String) :
    ∃ steps, Yields (evalPath env call (path.map fun name =>
        if Script.isIdentifier name then .field name else .index (.str name))) s w (.ok steps) s w ∧
      ∀ new d, Datum.update? (Yields.assignedValue? .set new) steps d = Datum.put? new path d := by
  induction path with
  | nil => exact ⟨[], .pure _, fun new d => by cases d <;> rfl⟩
  | cons name path ih =>
    obtain ⟨steps, rest, same⟩ := ih
    rw [List.map_cons]
    by_cases bare : Script.isIdentifier name = true
    · rw [if_pos bare]
      refine ⟨.field name :: steps, rest.map _, fun new d => ?_⟩
      cases d with
      | map entries =>
        rw [Datum.put?, ← same, Datum.update?]
        cases Datum.update? _ steps ((Keyed.lookup name entries).getD .unit) <;> rfl
      | _ => rfl
    · rw [if_neg bare]
      refine ⟨.key (.text name) :: steps, (Yields.str name).bind (rest.map _), fun new d => ?_⟩
      cases d with
      | map entries =>
        rw [Datum.put?, ← same, Datum.update?]
        cases Datum.update? _ steps ((Keyed.lookup name entries).getD .unit) <;> rfl
      | _ => rfl

/-! ## Copies -/

/-- Variables that show the results and the outputs, of which the outputs can be changed. -/
structure ShowsOutputs (S : Datum → Entries) (result : Datum) : Prop where
  /-- The results are shown. -/
  result : ∀ outputs, Keyed.lookup "output_value" (S outputs) = some result
  /-- The outputs are shown. -/
  outputs : ∀ outputs, Keyed.lookup "outputs" (S outputs) = some outputs
  /-- Other outputs leave the other variables alone. -/
  modify : ∀ outputs outputs', Keyed.modify "outputs" (fun _ => outputs') (S outputs) = S outputs'

/-- What the functions that copy results to outputs call. -/
structure Environment.Copies (env : Environment) : Prop extends env.Releases where
  /-- The function that copies a node. -/
  copy : env.Provides copyFunction
  /-- The function that removes nodes. -/
  release : env.Provides releaseFunction

section Copies

variable {S : Datum → Entries} {result outputs outputs' : Datum} {scene : Scene Entries}
  {c : OutputCopy} {copies : List OutputCopy} {halt : Halt}

/-- The expression for a part of the outputs comes to what the copy puts there. -/
theorem yields_part (h : env.Copies) (shows : ShowsOutputs S result) (based : c.Based) :
    Yields (evalExpr env (callFunction env depth)
      (if c.isNode then .call "_copy_node_output" [c.source.expr, c.target.expr] else c.source.expr))
      (S outputs) w (c.part result outputs w.scene).1 (S outputs)
      { w with scene := (c.part result outputs w.scene).2 } := by
  have source : Yields (evalExpr env (callFunction env depth) c.source.expr) (S outputs) w
      (requireResult (result.fields? c.source.path)) (S outputs) w :=
    yields_access (based.source ▸ shows.result outputs)
  have target : Yields (evalExpr env (callFunction env depth) c.target.expr) (S outputs) w
      (requireResult (outputs.fields? c.target.path)) (S outputs) w :=
    yields_access (based.target ▸ shows.outputs outputs)
  unfold OutputCopy.part
  cases found : result.fields? c.source.path with
  | none =>
    rw [found] at source
    cases c.isNode with
    -- only a node is copied through the function; other values are put in place as they are
    | false => exact source
    | true => exact (Yields.items_halt source).bind_error
  | some src =>
    rw [found] at source
    cases c.isNode with
    | false => exact source
    | true =>
      cases reached : outputs.fields? c.target.path with
      | none =>
        rw [reached] at target
        exact Yields.bind_error (source.bind (Yields.items_halt target).bind_error)
      | some dest =>
        rw [reached] at target
        have called := Yields.call_provided h.copy
          (.items_cons source (.items_cons target .items_nil)) rfl (comes_copy h.typeOf src dest w)
        exact called

/-- A copy that is made changes the outputs. -/
theorem yields_copy (h : env.Copies) (shows : ShowsOutputs S result) (based : c.Based)
    (made : c.perform result outputs w.scene = (.ok outputs', scene)) :
    Yields (evalStmt env (callFunction env depth) c.stmt) (S outputs) w (.ok .unit) (S outputs')
      { w with scene := scene } := by
  have value : Yields (evalExpr env (callFunction env depth)
      (if c.isNode then .call "_copy_node_output" [c.source.expr, c.target.expr] else c.source.expr))
      (S outputs) w (c.part result outputs w.scene).1 (S outputs)
      { w with scene := (c.part result outputs w.scene).2 } := yields_part h shows based
  unfold OutputCopy.perform at made
  split at made
  · cases made
  · next part scene₁ e =>
    rw [e] at value
    split at made
    · cases made
    · next changed =>
      cases made
      obtain ⟨steps, leads, same⟩ := yields_path c.target.path
      have assigned := value.assigned leads (based.target ▸ shows.outputs outputs)
        ((same part outputs).trans changed)
      rw [based.target, shows.modify] at assigned
      unfold OutputCopy.stmt Access.place
      rw [based.target]
      exact assigned

/-- A copy that fails leaves the outputs alone. -/
theorem yields_copy_halt (h : env.Copies) (shows : ShowsOutputs S result) (based : c.Based)
    (failed : c.perform result outputs w.scene = (.error halt, scene)) :
    Yields (evalStmt env (callFunction env depth) c.stmt) (S outputs) w (.error halt) (S outputs)
      { w with scene := scene } := by
  have value : Yields (evalExpr env (callFunction env depth)
      (if c.isNode then .call "_copy_node_output" [c.source.expr, c.target.expr] else c.source.expr))
      (S outputs) w (c.part result outputs w.scene).1 (S outputs)
      { w with scene := (c.part result outputs w.scene).2 } := yields_part h shows based
  unfold OutputCopy.perform at failed
  split at failed
  · next e =>
    cases failed
    rw [e] at value
    exact .assigned_halt value
  · next part scene₁ e =>
    rw [e] at value
    split at failed
    · next missing =>
      cases failed
      obtain ⟨steps, leads, same⟩ := yields_path c.target.path
      exact .assigned_fault value leads (based.target ▸ shows.outputs outputs)
        ((same part outputs).trans missing)
    · cases failed

/-- Copies that are made change the outputs one after another. -/
theorem yields_copies (h : env.Copies) (shows : ShowsOutputs S result)
    (based : ∀ c ∈ copies, c.Based) (v : Datum)
    (made : OutputCopy.performAll result copies outputs w.scene = (.ok outputs', scene)) :
    ∃ v', Yields (evalBlock env (callFunction env depth) v (copies.map OutputCopy.stmt)) (S outputs)
      w (.ok v') (S outputs') { w with scene := scene } := by
  induction copies generalizing outputs w v with
  | nil =>
    cases made
    exact ⟨v, .block_nil v⟩
  | cons c copies ih =>
    obtain ⟨first, others⟩ := List.forall_mem_cons.1 based
    unfold OutputCopy.performAll at made
    split at made
    · cases made
    · next outputs₁ scene₁ step =>
      obtain ⟨v', rest⟩ := @ih { w with scene := scene₁ } outputs₁ others .unit made
      exact ⟨v', .block_cons rfl (yields_copy h shows first step) rest⟩

/-- Copies of which one fails are made up to that. -/
theorem yields_copies_halt (h : env.Copies) (shows : ShowsOutputs S result)
    (based : ∀ c ∈ copies, c.Based) (v : Datum)
    (failed : OutputCopy.performAll result copies outputs w.scene = (.error halt, scene)) :
    ∃ outputs', Yields (evalBlock env (callFunction env depth) v (copies.map OutputCopy.stmt))
      (S outputs) w (.error halt) (S outputs') { w with scene := scene } := by
  induction copies generalizing outputs w v with
  | nil => cases failed
  | cons c copies ih =>
    obtain ⟨first, others⟩ := List.forall_mem_cons.1 based
    unfold OutputCopy.performAll at failed
    split at failed
    · next step =>
      cases failed
      exact ⟨outputs, .block_halt rfl (yields_copy_halt h shows first step)⟩
    · next outputs₁ scene₁ step =>
      obtain ⟨outputs', rest⟩ := @ih { w with scene := scene₁ } outputs₁ others .unit failed
      exact ⟨outputs', .block_cons rfl (yields_copy h shows first step) rest⟩

/-! ## Releasing what nothing holds -/

/-- The variables of the statements that copy results to outputs. -/
def widgetScope (result : Datum) (keep : List Datum) (rest : Entries) (outputs : Datum) : Entries :=
  ("output_value", result) :: ("_keep", .array keep) :: ("outputs", outputs) :: rest

variable {keep sources : List Datum} {rest : Entries}

/-- The variables show the results and the outputs. -/
theorem shows_widgetScope (result : Datum) (keep : List Datum) (rest : Entries) :
    ShowsOutputs (widgetScope result keep rest) result where
  result _ := rfl
  outputs _ := rfl
  modify _ _ := rfl

/-- The statement that removes nodes. -/
def releaseStmt : Stmt := .run (.call "_release_nodes" [.var "_sources", .var "_keep"])

/-- Nodes are removed, but for those that are kept. -/
theorem yields_releaseStmt (h : env.Copies)
    (there : Keyed.lookup "_sources" s = some (.array sources))
    (there' : Keyed.lookup "_keep" s = some (.array keep)) :
    Yields (evalStmt env (callFunction env depth) releaseStmt) s w (.ok .unit) s
      { w with scene := w.scene.drop keep sources } := by
  have called : Yields (evalExpr env (callFunction env depth)
      (.call releaseFunction.name [.var "_sources", .var "_keep"])) s w (.ok .unit) s
      { w with scene := w.scene.drop keep sources } :=
    .call_provided h.release (.items_cons (.var there) (.items_cons (.var there') .items_nil)) rfl
      (comes_release h.toReleases sources keep w)
  exact .run called

/-- Where a copy fails, nodes are removed and the failure is raised again. -/
theorem yields_releaseHandler (h : env.Copies) (seen : Datum)
    (there : Keyed.lookup "_sources" s = some (.array sources))
    (there' : Keyed.lookup "_keep" s = some (.array keep)) :
    Yields (Host.inBlock do
      Host.declare "err" seen
      evalBlock env (callFunction env depth) .unit [releaseStmt, .raise (.var "err")]) s w
      (.error (.thrown seen)) s { w with scene := w.scene.drop keep sources } := by
  have released : Yields (evalStmt env (callFunction env depth) releaseStmt) (("err", seen) :: s) w
      (.ok .unit) (("err", seen) :: s) { w with scene := w.scene.drop keep sources } :=
    yields_releaseStmt h there there'
  refine (Yields.declare_then (.block_cons rfl released
    (.block_single rfl (.raised (.var rfl))))).inBlock_dropping ?_
  rw [List.length_cons, Nat.add_sub_cancel_left, List.drop_one, List.tail_cons]

/-- The variables of the statements behind the one that finds the nodes in the results. -/
def releasingScope (copies : List OutputCopy) (result : Datum) (keep : List Datum) (rest : Entries)
    (outputs : Datum) : Entries :=
  ("_sources", .array (OutputCopy.sources copies result)) :: widgetScope result keep rest outputs

/-- They show the results and the outputs as well. -/
theorem shows_releasingScope (copies : List OutputCopy) (result : Datum) (keep : List Datum)
    (rest : Entries) : ShowsOutputs (releasingScope copies result keep rest) result where
  result _ := rfl
  outputs _ := rfl
  modify _ _ := rfl

/-- The nodes in the results are found. -/
theorem yields_sources (based : ∀ c ∈ copies, c.Based)
    (found : ∀ c ∈ copies, c.isNode = true → ∃ src, result.fields? c.source.path = some src) :
    Yields (evalStmt env call (.declare "_sources"
      (some (.items ((copies.filter OutputCopy.isNode).map fun c => c.source.expr)))))
      (widgetScope result keep rest outputs) w (.ok .unit)
      (releasingScope copies result keep rest outputs) w := by
  refine .declared (yields_accessItems (fun c m => (based c (List.mem_filter.1 m).1).source) rfl
    fun c m => ?_)
  obtain ⟨m, node⟩ := List.mem_filter.1 m
  exact found c m node

/-- The nodes in the outputs are kept as well. -/
theorem yields_keepTargets (based : ∀ c ∈ copies, c.Based)
    (found : ∀ c ∈ copies, c.isNode = true → ∃ part, outputs.fields? c.target.path = some part) :
    Yields (evalStmt env call (.assign ⟨"_keep", []⟩ .add
      (.items ((copies.filter OutputCopy.isNode).map fun c => c.target.expr))))
      (releasingScope copies result keep rest outputs) w (.ok .unit)
      (releasingScope copies result (keep ++ OutputCopy.targets copies outputs) rest outputs) w := by
  refine .assigned (yields_accessItems (fun c m => (based c (List.mem_filter.1 m).1).target) rfl
    fun c m => ?_) (.pure _) rfl rfl
  obtain ⟨m, node⟩ := List.mem_filter.1 m
  exact found c m node

/-- When all copies are made, the nodes in the results are removed that are neither kept nor found in
the outputs. -/
theorem yields_copyStmts (h : env.Copies) (based : ∀ c ∈ copies, c.Based)
    (aligned : OutputCopy.Aligned copies)
    (found : ∀ c ∈ copies, c.isNode = true → ∃ src, result.fields? c.source.path = some src)
    (made : OutputCopy.performAll result copies outputs w.scene = (.ok outputs', scene)) (v : Datum) :
    ∃ v' keep' after, (after = widgetScope result keep' rest outputs' ∨
        after = releasingScope copies result keep' rest outputs') ∧
      Yields (evalBlock env (callFunction env depth) v (copyStmts copies))
        (widgetScope result keep rest outputs) w (.ok v') after
        ⟨scene.drop (keep ++ OutputCopy.targets copies outputs') (OutputCopy.sources copies result),
          w.board⟩ := by
  unfold copyStmts
  simp only
  -- without a node to copy the parts are just put in place, and nothing is released
  by_cases none : (copies.filter OutputCopy.isNode).isEmpty = true
  · rw [if_pos none]
    obtain ⟨v', all⟩ : ∃ v', Yields (evalBlock env (callFunction env depth) v
        (copies.map OutputCopy.stmt)) (widgetScope result keep rest outputs) w (.ok v')
        (widgetScope result keep rest outputs') { w with scene := scene } :=
      yields_copies h (shows_widgetScope result keep rest) based v made
    have nothing : OutputCopy.sources copies result = [] := by
      rw [OutputCopy.sources, List.isEmpty_iff.1 none]
      rfl
    rw [nothing]
    exact ⟨v', keep, _, .inl rfl, all⟩
  · rw [if_neg none]
    have found' : ∀ c ∈ copies, c.isNode = true →
        ∃ part, outputs'.fields? c.target.path = some part := fun c m node =>
      OutputCopy.exists_target m (congrArg Prod.fst made) aligned (found c m node)
    obtain ⟨v', all⟩ : ∃ v', Yields (evalBlock env (callFunction env depth) .unit
        (copies.map OutputCopy.stmt)) (releasingScope copies result keep rest outputs) w (.ok v')
        (releasingScope copies result keep rest outputs') { w with scene := scene } :=
      yields_copies h (shows_releasingScope copies result keep rest) based .unit made
    exact ⟨.unit, keep ++ OutputCopy.targets copies outputs', _, .inr rfl,
      .block_cons rfl (yields_sources based found) (.block_cons rfl (.attempt_ok (all.inBlock rfl))
        (.block_cons rfl (yields_keepTargets based found')
          (.block_single rfl (yields_releaseStmt h rfl rfl))))⟩

/-- When a copy fails, the nodes in the results are removed that are not kept. -/
theorem yields_copyStmts_halt (h : env.Copies) (based : ∀ c ∈ copies, c.Based)
    (found : ∀ c ∈ copies, c.isNode = true → ∃ src, result.fields? c.source.path = some src)
    (failed : OutputCopy.performAll result copies outputs w.scene = (.error halt, scene))
    (v : Datum) :
    ∃ after, Yields (evalBlock env (callFunction env depth) v (copyStmts copies))
      (widgetScope result keep rest outputs) w (.error (OutputCopy.failure copies halt)) after
      { w with scene := scene.drop keep (OutputCopy.sources copies result) } := by
  obtain ⟨seen, caught⟩ := OutputCopy.exists_caught_of_performAll (congrArg Prod.fst failed)
  unfold copyStmts OutputCopy.failure
  simp only
  by_cases none : (copies.filter OutputCopy.isNode).isEmpty = true
  · rw [if_pos none, if_pos none]
    obtain ⟨outputs', all⟩ : ∃ outputs', Yields (evalBlock env (callFunction env depth) v
        (copies.map OutputCopy.stmt)) (widgetScope result keep rest outputs) w (.error halt)
        (widgetScope result keep rest outputs') { w with scene := scene } :=
      yields_copies_halt h (shows_widgetScope result keep rest) based v failed
    have nothing : OutputCopy.sources copies result = [] := by
      rw [OutputCopy.sources, List.isEmpty_iff.1 none]
      rfl
    rw [nothing]
    exact ⟨_, all⟩
  · rw [if_neg none, if_neg none, caught]
    obtain ⟨outputs', all⟩ : ∃ outputs', Yields (evalBlock env (callFunction env depth) .unit
        (copies.map OutputCopy.stmt)) (releasingScope copies result keep rest outputs) w
        (.error halt) (releasingScope copies result keep rest outputs') { w with scene := scene } :=
      yields_copies_halt h (shows_releasingScope copies result keep rest) based .unit failed
    exact ⟨_, .block_cons rfl (yields_sources based found) (.block_halt rfl
      (.attempt_raised (all.inBlock rfl) caught (yields_releaseHandler h seen rfl rfl)))⟩

end Copies

end Host

end Pipewright
