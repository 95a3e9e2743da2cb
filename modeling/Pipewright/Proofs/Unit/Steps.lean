import Pipewright.Proofs.Unit.Bindings

/-! # The steps of a generated program
The statements of a step report its start, evaluate what its slots carry, call its operation and keep
the result. So the statements of all inner steps call their operations one after another, as the
meaning of the graph says. -/

namespace Pipewright

open Host (Environment Yields YieldsOption evalBlock evalExpr evalEntries evalItems evalStmt callFunction)
open Script (Expr Stmt)

/-- The functions of the host that the statements of steps call are not hidden by functions of the
program. -/
structure Host.Environment.Calls (env : Environment) : Prop where
  /-- Texts are read as numbers by the host. -/
  parse : env.Lacks "parse_float"
  /-- Progress is reported to the host. -/
  report : env.Lacks "report_progress"
  /-- Callbacks for pieces are made by the host. -/
  sub : env.Lacks "get_sub_callback"
  /-- Operations are called by the host. -/
  invoke : env.Lacks "invoke"

namespace Host

variable {env : Environment} {call : Caller} {s s' s'' : Entries} {w w' w'' : World}

/-! ## Entries of maps -/

namespace Yields

/-- No entries have no values. -/
theorem entries_nil : Yields (evalEntries env call []) s w (.ok []) s w := by
  exact .pure []

/-- The values of entries, the first one's first. -/
theorem entries_cons {name : String} {e : Expr} {es : List (String × Expr)} {d : Datum}
    {ds : Entries} (h : Yields (evalExpr env call e) s w (.ok d) s' w')
    (h' : Yields (evalEntries env call es) s' w' (.ok ds) s'' w'') :
    Yields (evalEntries env call ((name, e) :: es)) s w (.ok ((name, d) :: ds)) s'' w'' := by
  exact h.bind (h'.map _)

/-- Where an entry halts, the ones behind it are not evaluated. -/
theorem entries_halt {name : String} {e : Expr} {es : List (String × Expr)} {halt : Halt}
    (h : Yields (evalExpr env call e) s w (.error halt) s' w') :
    Yields (evalEntries env call ((name, e) :: es)) s w (.error halt) s' w' := by
  exact h.bind_error

end Yields

/-- Entries behind others are evaluated after them. -/
theorem evalEntries_append (before after : List (String × Expr)) :
    evalEntries env call (before ++ after) =
      evalEntries env call before >>= fun ds => evalEntries env call after >>= fun ds' =>
        pure (ds ++ ds') := by
  induction before with
  | nil =>
    show evalEntries env call after = (pure [] : Eval Entries) >>= _
    rw [pure_bind]
    exact (bind_pure _).symm
  | cons entry before ih =>
    obtain ⟨name, e⟩ := entry
    have opened : ∀ es, evalEntries env call ((name, e) :: es) =
        evalExpr env call e >>= fun d => evalEntries env call es >>= fun ds =>
          pure ((name, d) :: ds) := fun _ => rfl
    rw [List.cons_append, opened, opened, ih]
    simp only [bind_assoc, pure_bind, List.cons_append]

namespace Yields

/-- The values of entries and of those behind them. -/
theorem entries_append {before after : List (String × Expr)} {ds ds' : Entries}
    (h : Yields (evalEntries env call before) s w (.ok ds) s' w')
    (h' : Yields (evalEntries env call after) s' w' (.ok ds') s'' w'') :
    Yields (evalEntries env call (before ++ after)) s w (.ok (ds ++ ds')) s'' w'' := by
  rw [evalEntries_append]
  exact h.bind (h'.map _)

/-- Entries behind others that halt are not evaluated. -/
theorem entries_append_halt {before after : List (String × Expr)} {halt : Halt}
    (h : Yields (evalEntries env call before) s w (.error halt) s' w') :
    Yields (evalEntries env call (before ++ after)) s w (.error halt) s' w' := by
  rw [evalEntries_append]
  exact h.bind_error

/-- A map holds the values of its entries. -/
theorem object {layout : Script.Layout} {entries : List (String × Expr)} {ds : Entries}
    (h : Yields (evalEntries env call entries) s w (.ok ds) s' w') :
    Yields (evalExpr env call (.object layout entries)) s w (.ok (.map (Keyed.ofList ds))) s'
      w' := by
  exact h.map _

/-- A method whose arguments halt is not called. -/
theorem method_halt {name function : String} {arguments : List Expr} {target : Datum} {halt : Halt}
    (there : Keyed.lookup name s = some target)
    (h : Yields (evalItems env call arguments) s w (.error halt) s' w') :
    Yields (evalExpr env call (.method (.var name) function arguments)) s w (.error halt) s'
      w' := by
  have read : Yields (Location.read ⟨name, []⟩) s w (.ok target) s w :=
    (readVariable there).bind (require rfl)
  exact (pure (some (Location.mk name []))).bind (read.bind h.bind_error)

end Yields

/-- The values of bindings under names. -/
def bindingValues (s : Entries) (bindings : List (String × Binding)) : Option Entries :=
  bindings.mapM fun b => (b.2.value? s).map fun d => (b.1, d)

/-- The entries of bindings evaluate to what the bindings stand for. -/
theorem yields_bindings (lacks : env.Lacks "parse_float") (bindings : List (String × Binding)) :
    YieldsOption (evalEntries env call (bindings.map fun b => (b.1, b.2.expr))) s w
      (bindingValues s bindings) := by
  induction bindings with
  | nil => exact .entries_nil
  | cons binding bindings ih =>
    obtain ⟨name, b⟩ := binding
    have first : YieldsOption (evalExpr env call b.expr) s w (b.value? s) := yields_binding lacks b
    unfold bindingValues at ih ⊢
    rw [List.mapM_cons]
    cases e : b.value? s with
    | none =>
      rw [e] at first
      obtain ⟨halt, seen, caught, halts⟩ := first
      exact ⟨halt, seen, caught, .entries_halt halts⟩
    | some d =>
      rw [e] at first
      cases e' : bindings.mapM fun b => (b.2.value? s).map fun d => (b.1, d) with
      | none =>
        rw [e'] at ih
        obtain ⟨halt, seen, caught, halts⟩ := ih
        exact ⟨halt, seen, caught, first.bind halts.bind_error⟩
      | some ds =>
        rw [e'] at ih
        exact .entries_cons first ih

/-! ## Reports and calls -/

/-- A report of a start is told to the callback. -/
theorem yields_report (h : env.Calls) {callback : Progress.Callback}
    (there : Keyed.lookup callbackName s = some (.progress callback)) (name : String)
    (piece pieces : Nat) :
    Yields (evalStmt env call (reportStmt name piece pieces)) s w (.ok .unit) s
      (w.report callback name 0 (Int64.ofNat piece) (Int64.ofNat pieces)) := by
  have told : Yields (env.callNative "report_progress" [.progress callback, .text name, .float 0,
      .int (Int64.ofNat piece), .int (Int64.ofNat pieces)]) s w (.ok .unit) s
      (w.report callback name 0 (Int64.ofNat piece) (Int64.ofNat pieces)) :=
    .withWorld fun w => (Datum.unit,
      w.report callback name 0 (Int64.ofNat piece) (Int64.ofNat pieces))
  exact .run (.method_native there
    (.items_cons (.str name) (.items_cons (.float 0) (.items_cons (.int _) (.items_cons (.int _)
      .items_nil)))) (h.report _) (by decide) told)

/-- A registered operation is found under its name. -/
theorem yields_operation {name : String} (known : env.registry.contains name = true) :
    Yields (evalExpr env call (HostModule.operations.call "get" [.str name])) s w
      (.ok (.operation name)) s w := by
  refine .moduleCall (.items_cons (.str name) .items_nil) ?_
  rw [Environment.callModule, module?_name]
  show Yields (if env.registry.contains name = true then _ else _ : Eval Datum) _ _ _ _ _
  rw [if_pos known]
  exact .pure _

/-- What calling an operation comes to in a program: its result, or its message, which is raised. -/
def invokeResult (o : Operation) : Except OperationError Datum → Except Halt Datum
  | .ok d => .ok d
  | .error e => .error (.thrown (.text (o.name ++ ": " ++ e.message)))

/-- Calling an operation comes to what its code comes to. -/
theorem yields_invoke {name : String} {o : Operation} {arguments : Entries}
    {r : Except OperationError Datum} (found : env.registry.operation? name = some o)
    (comes : (o.call arguments).run.run w = (r, w')) :
    Yields (env.invoke name arguments) s w (invokeResult o r) s w' := by
  have called := Yields.withWorld (s := s) (w := w) fun w => (o.call arguments).run.run w
  rw [comes] at called
  cases r with
  | ok d => exact (Yields.require found).bind (called.bind (.pure d))
  | error e => exact (Yields.require found).bind (called.bind (.raise _))

/-- A callback for the piece of a step. -/
theorem yields_subCallback (h : env.Calls) (g : PipelineGraph) {callback : Progress.Callback}
    (there : Keyed.lookup callbackName s = some (.progress callback)) (step : Nat) :
    Yields (evalExpr env call (.method (.var callbackName) "get_sub_callback"
        [.int (Int64.ofNat (step - 1)), .int (Int64.ofNat g.pieces)])) s w
      (.ok (.progress (g.subCallback w callback step).1)) s
      { w with board := (g.subCallback w callback step).2 } := by
  have made : Yields (env.callNative "get_sub_callback" [.progress callback,
      .int (Int64.ofNat (step - 1)), .int (Int64.ofNat g.pieces)]) s w
      (.ok (.progress (g.subCallback w callback step).1)) s
      { w with board := (g.subCallback w callback step).2 } :=
    .withWorld fun w => (Datum.progress (g.subCallback w callback step).1,
      { w with board := (g.subCallback w callback step).2 })
  exact .method_native there (.items_cons (.int _) (.items_cons (.int _) .items_nil)) (h.sub _)
    (by decide) made

/-- The entries for the progress parameter of an operation: a callback, if there is such a
parameter. -/
def progressEntries (g : PipelineGraph) (callback : Progress.Callback) (step : Nat) (o : Operation)
    (w : World) : Entries :=
  match o.progress? with
  | none => []
  | some name => [(name, .progress (g.subCallback w callback step).1)]

/-- The only name among the entries for the progress parameter is that of the parameter. -/
theorem mem_keys_progressEntries {g : PipelineGraph} {callback : Progress.Callback} {step : Nat}
    {o : Operation} {w : World} {name : String} :
    name ∈ Keyed.keys (progressEntries g callback step o w) ↔ o.progress? = some name := by
  unfold progressEntries
  cases o.progress? with
  | none => simp [Keyed.keys]
  | some name' => simp [Keyed.keys, eq_comm]

/-- There is at most one entry for the progress parameter. -/
theorem nodup_keys_progressEntries (g : PipelineGraph) (callback : Progress.Callback) (step : Nat)
    (o : Operation) (w : World) : (Keyed.keys (progressEntries g callback step o w)).Nodup := by
  unfold progressEntries
  cases o.progress? <;> simp [Keyed.keys]

/-- The argument for the progress parameter is a callback for the piece of the step. -/
theorem yields_progressArguments (h : env.Calls) (g : PipelineGraph) {callback : Progress.Callback}
    (there : Keyed.lookup callbackName s = some (.progress callback)) (step : Nat) (o : Operation) :
    Yields (evalEntries env call (g.progressArguments step o)) s
      (w.report callback o.name 0 (Int64.ofNat (step - 1)) (Int64.ofNat g.pieces))
      (.ok (progressEntries g callback step o
        (w.report callback o.name 0 (Int64.ofNat (step - 1)) (Int64.ofNat g.pieces)))) s
      (g.callWorld callback w step o) := by
  unfold PipelineGraph.progressArguments progressEntries PipelineGraph.callWorld
  cases o.progress? with
  | none => exact .entries_nil
  | some name => exact .entries_cons (yields_subCallback h g there step) .entries_nil

end Host

/-! ## One step -/

namespace PipelineGraph

variable {g : PipelineGraph} {r : Registry} {inputs : List (SlotKey × Datum)}
  {callback : Progress.Callback} {removes failed : Bool} {results : List (Nat × Datum)}
  {failure : Datum} {i : Nat} {o : Operation} {locals s : Entries}

/-- Variables that hold operations of steps. -/
def HoldsOperations (locals : Entries) : Prop :=
  ∀ x ∈ Keyed.keys locals, ∃ j a, x = functionVariable j a

/-- Variables of operations are none of those that a step reads. -/
theorem HoldsOperations.not_mem (h : HoldsOperations locals) {x : String}
    (apart : ∀ j a, x ≠ functionVariable j a) : x ∉ Keyed.keys locals := by
  intro m
  obtain ⟨j, a, e⟩ := h x m
  exact apart j a e

/-- The variables of the function show what the slots of a step read, if all steps before have
results. -/
theorem shows_runScope (w : g.Wired r) (named : g.NamedKeys 0 (inputs.map Prod.fst))
    (hidden : HoldsOperations locals) (le : i ≤ g.lastStep)
    (known : ∀ j, 1 ≤ j → j < i → (Keyed.lookup j results).isSome) :
    g.Shows inputs results i
      (locals ++ g.runScope inputs callback removes results failed failure) where
  input := by
    intro key m first
    have listed : key ∈ Keyed.keys inputs :=
      named.perm.mem_iff.2 (List.mem_filter.2 ⟨m, by simp [first]⟩)
    obtain ⟨d, found⟩ := Keyed.exists_lookup_of_mem_keys listed
    have accepted := named.named key listed
    rw [Keyed.lookup_append_of_not_mem (hidden.not_mem fun j a =>
      ne_stepName_of_nameFault? accepted (isStepName_functionVariable j a)),
      lookup_input w named (Keyed.mem_of_lookup found), found]
  result := by
    intro j first before
    have apart : g.stepVariable j ∉ Keyed.keys locals :=
      hidden.not_mem fun _ _ => returnVariable_ne_functionVariable
    rw [Keyed.lookup_append_of_not_mem apart, lookup_stepVariable w named first (by omega)]
    obtain ⟨d, found⟩ := Option.isSome_iff_exists.1 (known j first before)
    rw [found, Option.getD_some]

/-- The arguments of a step come from bindings of its parameters. -/
theorem exists_bindings {entries : List (String × Expr)} (h : g.arguments i o = .ok entries) :
    ∃ bindings : List (String × Binding),
      entries = bindings.map (fun b => (b.1, b.2.expr)) ∧
      Keyed.keys bindings = Keyed.keys o.parameters ∧
      ∀ b ∈ bindings, g.binding (.parameter i o.name b.1) = .ok b.2 := by
  unfold arguments at h
  generalize o.parameters = parameters at h
  -- the entries are generated one by one, each from the binding of a parameter
  induction parameters generalizing entries with
  | nil =>
    cases h
    exact ⟨[], rfl, rfl, by simp⟩
  | cons parameter rest ih =>
    rw [List.mapM_cons] at h
    cases first : g.binding (.parameter i o.name parameter.1) with
    | error fault =>
      simp only [first] at h
      cases h
    | ok b =>
      simp only [first] at h
      cases others : rest.mapM fun parameter => do
          let binding ← g.binding (.parameter i o.name parameter.1)
          return (parameter.1, binding.expr) with
      | error fault =>
        rw [others] at h
        cases h
      | ok entries' =>
        rw [others] at h
        cases h
        obtain ⟨bindings, rfl, keys, bound⟩ := ih others
        refine ⟨(parameter.1, b) :: bindings, rfl, congrArg _ keys, ?_⟩
        rintro b' m
        rcases List.mem_cons.1 m with rfl | m
        · exact first
        · exact bound b' m

/-- The values of bindings are under their names. -/
theorem keys_bindingValues {bindings : List (String × Binding)} {values : Entries}
    (h : Host.bindingValues s bindings = some values) :
    Keyed.keys values = Keyed.keys bindings ∧
      ∀ b ∈ bindings, ∃ d, (b.1, d) ∈ values ∧ b.2.value? s = some d := by
  unfold Host.bindingValues at h
  induction bindings generalizing values with
  | nil =>
    cases h
    exact ⟨rfl, by simp⟩
  | cons b bindings ih =>
    rw [List.mapM_cons] at h
    obtain ⟨entry, first, h⟩ := Option.bind_eq_some_iff.1 h
    obtain ⟨d, value, rfl⟩ := Option.map_eq_some_iff.1 first
    obtain ⟨values', others, h⟩ := Option.bind_eq_some_iff.1 h
    cases h
    obtain ⟨keys, each⟩ := ih others
    refine ⟨congrArg _ keys, ?_⟩
    rintro b' m
    rcases List.mem_cons.1 m with rfl | m
    · exact ⟨d, List.mem_cons_self, value⟩
    · obtain ⟨d', m', value'⟩ := each b' m
      exact ⟨d', List.mem_cons_of_mem _ m', value'⟩

/-- The map that a step makes holds the arguments of its operation. -/
theorem callArguments_of_values (w : g.Wired r) (shows' : g.Shows inputs results i s)
    (distinct : o.Distinct) {bindings : List (String × Binding)} {values : Entries}
    (keys : Keyed.keys bindings = Keyed.keys o.parameters)
    (bound : ∀ b ∈ bindings, g.binding (.parameter i o.name b.1) = .ok b.2)
    (evaluated : Host.bindingValues s bindings = some values) (world : World) :
    g.CallArguments Value.reading inputs callback results i o world
      (Keyed.ofList (values ++ Host.progressEntries g callback i o world)) := by
  obtain ⟨names, each⟩ := keys_bindingValues evaluated
  rw [keys] at names
  have all : Keyed.keys (values ++ Host.progressEntries g callback i o world) =
      Keyed.keys o.parameters ++ Keyed.keys (Host.progressEntries g callback i o world) := by
    rw [← names]
    exact List.map_append
  have once : (Keyed.keys (values ++ Host.progressEntries g callback i o world)).Nodup := by
    rw [all, List.nodup_append]
    refine ⟨distinct.wired, Host.nodup_keys_progressEntries g callback i o world, ?_⟩
    rintro name m _ m' rfl
    exact distinct.progress name (Host.mem_keys_progressEntries.1 m') m
  -- no entry is hidden by another one, so sorting them loses none
  have found : ∀ {name d}, (name, d) ∈ values ++ Host.progressEntries g callback i o world →
      Keyed.lookup name (Keyed.ofList (values ++ Host.progressEntries g callback i o world)) =
        some d := by
    intro name d m
    rw [Keyed.lookup_ofList once]
    exact Keyed.lookup_of_mem_of_nodup once m
  exact
    { sorted := Keyed.sorted_ofList _
      names := by
        intro name
        rw [← Keyed.isSome_lookup_iff, Keyed.lookup_ofList once, Keyed.isSome_lookup_iff, all,
          List.mem_append, Host.mem_keys_progressEntries]
      carried := by
        intro name m
        rw [← keys] at m
        obtain ⟨b, m', rfl⟩ := List.mem_map.1 m
        obtain ⟨d, there, value⟩ := each b m'
        refine ⟨d, found (List.mem_append_left _ there), ?_⟩
        exact (shows'.carries_iff w (bound b m') (Nat.le_refl _)).2 value
      progress := by
        intro name e
        refine found (List.mem_append_right _ ?_)
        unfold Host.progressEntries
        rw [e]
        exact List.mem_singleton_self _ }

/-- Where a binding has no value, the slot of a parameter carries none. -/
theorem exists_not_carries (w : g.Wired r) (shows' : g.Shows inputs results i s)
    {bindings : List (String × Binding)}
    (keys : Keyed.keys bindings = Keyed.keys o.parameters)
    (bound : ∀ b ∈ bindings, g.binding (.parameter i o.name b.1) = .ok b.2)
    (evaluated : Host.bindingValues s bindings = none) :
    ∃ name ∈ Keyed.keys o.parameters, ∀ d,
      ¬ g.Carries Value.reading inputs results (.parameter i o.name name) d := by
  have missing : ∃ b ∈ bindings, b.2.value? s = none := by
    clear keys bound
    unfold Host.bindingValues at evaluated
    induction bindings with
    | nil => cases evaluated
    | cons b bindings ih =>
      rw [List.mapM_cons] at evaluated
      cases e : b.2.value? s with
      | none => exact ⟨b, List.mem_cons_self, e⟩
      | some d =>
        cases e' : bindings.mapM fun b => (b.2.value? s).map fun d => (b.1, d) with
        | none =>
          obtain ⟨b', m, none⟩ := ih e'
          exact ⟨b', List.mem_cons_of_mem _ m, none⟩
        | some values =>
          rw [e, e'] at evaluated
          cases evaluated
  obtain ⟨b, m, none⟩ := missing
  refine ⟨b.1, keys ▸ List.mem_map_of_mem m, fun d carried => ?_⟩
  have value := (shows'.carries_iff w (bound b m) (Nat.le_refl _)).1 carried
  rw [none] at value
  cases value

/-! ## The statements of steps -/

section Statements

variable {env : Environment} {stmts : List Stmt}

/-- A step whose operation cannot be called, because a parameter carries no value. -/
def Stuck (g : PipelineGraph) (r : Registry) (inputs : List (SlotKey × Datum)) (i : Nat)
    (results : List (Nat × Datum)) : Prop :=
  ∃ o, g.OperationAt r i o ∧ ∃ name ∈ Keyed.keys o.parameters, ∀ d,
    ¬ g.Carries Value.reading inputs results (.parameter i o.name name) d

/-- The statements of a step of an operation. -/
theorem stepStmts_eq (at' : g.OperationAt r i o) (w : g.Wired r)
    (h : g.stepStmts r (g.keysAt i) = .ok stmts) :
    ∃ entries layout, g.arguments i o = .ok entries ∧
      stmts = [.note ("step " ++ toString i ++ " - " ++ o.name),
        reportStmt o.name (i - 1) g.pieces,
        .declare (functionVariable i o.name) (some (HostModule.operations.call "get" [.str o.name])),
        .set (returnVariable i o.name) (.method (.var (functionVariable i o.name)) "invoke"
          [.object layout (entries ++ g.progressArguments i o)])] := by
  obtain ⟨inner, inner'⟩ := w.inner_of_operationAt at'
  obtain ⟨o', at'', found⟩ := w.exists_operationAt inner inner'
  cases w.operationAt_unique at' at''
  unfold stepStmts at h
  rw [found] at h
  cases e : g.arguments i o with
  | error fault =>
    simp only [bind, Except.bind, e] at h
    cases h
  | ok entries =>
    simp only [bind, Except.bind, e] at h
    cases h
    exact ⟨entries, _, rfl, rfl⟩

/-- The statements of a step call its operation with what its slots carry and keep the result. Where
a parameter carries no value they report the start only and come to a halt that can be caught. -/
theorem yields_step (call : Host.Caller) (before : World) (callback : Progress.Callback)
    (removes failed : Bool) (failure : Datum) (calls : env.Calls) (w : g.Wired env.registry)
    (built : env.registry.Built) (named : g.NamedKeys 0 (inputs.map Prod.fst))
    (at' : g.OperationAt env.registry i o)
    (h : g.stepStmts env.registry (g.keysAt i) = .ok stmts) (hidden : HoldsOperations locals)
    (known : ∀ j, 1 ≤ j → j < i → (Keyed.lookup j results).isSome) (v : Datum) :
    ∃ locals', HoldsOperations locals' ∧
      ((∃ arguments, g.CallArguments Value.reading inputs callback results i o
          (before.report callback o.name 0 (Int64.ofNat (i - 1)) (Int64.ofNat g.pieces)) arguments ∧
        (∀ d after, (o.call arguments).run.run (g.callWorld callback before i o) = (.ok d, after) →
          Yields (evalBlock env call v stmts)
            (locals ++ g.runScope inputs callback removes results failed failure) before (.ok .unit)
            (locals' ++ g.runScope inputs callback removes ((i, d) :: results) failed failure)
            after) ∧
        (∀ e after, (o.call arguments).run.run (g.callWorld callback before i o) =
            (.error e, after) →
          Yields (evalBlock env call v stmts)
            (locals ++ g.runScope inputs callback removes results failed failure) before
            (.error (.thrown (.text (o.name ++ ": " ++ e.message))))
            (locals' ++ g.runScope inputs callback removes results failed failure) after)) ∨
      (g.Stuck env.registry inputs i results ∧ ∃ halt seen, halt.caught? = some seen ∧
        Yields (evalBlock env call v stmts)
          (locals ++ g.runScope inputs callback removes results failed failure) before
          (.error halt) (locals' ++ g.runScope inputs callback removes results failed failure)
          (before.report callback o.name 0 (Int64.ofNat (i - 1)) (Int64.ofNat g.pieces)))) := by
  obtain ⟨inner, inner'⟩ := w.inner_of_operationAt at'
  obtain ⟨entries, layout, bound, rfl⟩ := stepStmts_eq at' w h
  obtain ⟨bindings, rfl, keys, bound'⟩ := exists_bindings bound
  have variable' : g.stepVariable i = returnVariable i o.name := w.stepVariable_operation built at'
  obtain ⟨key, -, -, name, -, found⟩ := id at'
  obtain ⟨own, distinct⟩ := built.sound found
  rw [← own] at found
  have registered : env.registry.contains o.name = true := by
    unfold Registry.contains Keyed.contains
    unfold Registry.operation? at found
    rw [found]
    rfl
  -- the variable of the operation is declared in front of the others
  let locals' : Entries := (functionVariable i o.name, .operation o.name) :: locals
  have hidden' : HoldsOperations locals' := by
    intro x m
    rcases List.mem_cons.1 m with rfl | m
    · exact ⟨i, o.name, rfl⟩
    · exact hidden x m
  let s := locals ++ g.runScope inputs callback removes results failed failure
  let s' := locals' ++ g.runScope inputs callback removes results failed failure
  have callback' : ∀ {locals : Entries}, HoldsOperations locals → Keyed.lookup callbackName
      (locals ++ g.runScope inputs callback removes results failed failure) =
        some (.progress callback) := by
    intro locals hidden
    have apart : callbackName ∉ Keyed.keys locals := hidden.not_mem fun _ _ =>
      ne_of_mem_ownNames (by decide) (isStepName_functionVariable _ _)
    rw [Keyed.lookup_append_of_not_mem apart, lookup_callbackName w named]
  let begun := before.report callback o.name 0 (Int64.ofNat (i - 1)) (Int64.ofNat g.pieces)
  have reported : Yields (evalStmt env call (reportStmt o.name (i - 1) g.pieces)) s before
      (.ok .unit) s begun :=
    Host.yields_report calls (callback' hidden) o.name (i - 1) g.pieces
  have declared : Yields (evalStmt env call (.declare (functionVariable i o.name)
      (some (HostModule.operations.call "get" [.str o.name])))) s begun (.ok .unit) s' begun :=
    .declared (Host.yields_operation registered)
  have operation : Keyed.lookup (functionVariable i o.name) s' = some (.operation o.name) := by
    show Keyed.lookup _ ((functionVariable i o.name, Datum.operation o.name) :: s) = _
    rw [Keyed.lookup_cons, if_pos rfl]
  have shows' : g.Shows inputs results i s' :=
    shows_runScope w named hidden' (Nat.le_of_lt inner') known
  have values : Host.YieldsOption (evalEntries env call (bindings.map fun b => (b.1, b.2.expr))) s'
      begun (Host.bindingValues s' bindings) :=
    Host.yields_bindings calls.parse bindings
  have absent : g.stepVariable i ∉ Keyed.keys locals' := hidden'.not_mem fun _ _ =>
    returnVariable_ne_functionVariable
  have result : Keyed.contains (returnVariable i o.name) s' = true := by
    rw [Keyed.contains, ← variable', Keyed.lookup_append_of_not_mem absent,
      lookup_stepVariable w named inner inner']
    rfl
  have opened : ∀ {stmt : Stmt} {r : Except Host.Halt Datum} {s'' : Entries} {w'' : World},
      Yields (evalBlock env call .unit [stmt]) s' begun r s'' w'' →
      Yields (evalBlock env call v [.note ("step " ++ toString i ++ " - " ++ o.name),
        reportStmt o.name (i - 1) g.pieces, .declare (functionVariable i o.name)
          (some (HostModule.operations.call "get" [.str o.name])), stmt]) s before r s'' w'' :=
    fun last => .block_remark rfl (.block_cons rfl reported (.block_cons rfl declared last))
  refine ⟨locals', hidden', ?_⟩
  cases evaluated : Host.bindingValues s' bindings with
  | none =>
    right
    refine ⟨⟨o, at', exists_not_carries w shows' keys bound' evaluated⟩, ?_⟩
    rw [evaluated] at values
    obtain ⟨halt, seen, caught, halts⟩ := values
    have arguments : Yields (evalItems env call [.object layout
        (bindings.map (fun b => (b.1, b.2.expr)) ++ g.progressArguments i o)]) s' begun
        (.error halt) s' begun :=
      .items_halt (Host.Yields.entries_append_halt halts).bind_error
    have called : Yields (evalExpr env call (.method (.var (functionVariable i o.name)) "invoke"
        [.object layout (bindings.map (fun b => (b.1, b.2.expr)) ++ g.progressArguments i o)])) s'
        begun (.error halt) s' begun := .method_halt operation arguments
    exact ⟨halt, seen, caught, opened (.block_halt rfl (Host.Yields.set_halt called))⟩
  | some ds =>
    left
    rw [evaluated] at values
    have arguments : Yields (evalItems env call [.object layout
        (bindings.map (fun b => (b.1, b.2.expr)) ++ g.progressArguments i o)]) s' begun
        (.ok [.map (Keyed.ofList (ds ++ Host.progressEntries g callback i o begun))]) s'
        (g.callWorld callback before i o) :=
      .items_cons (.object (.entries_append values
        (Host.yields_progressArguments calls g (callback' hidden') i o))) .items_nil
    have called : ∀ {r after}, (o.call (Keyed.ofList (ds ++ Host.progressEntries g callback i o
        begun))).run.run (g.callWorld callback before i o) = (r, after) →
        Yields (evalExpr env call (.method (.var (functionVariable i o.name)) "invoke"
          [.object layout (bindings.map (fun b => (b.1, b.2.expr)) ++ g.progressArguments i o)])) s'
          begun (Host.invokeResult o r) s' after := fun comes =>
      .method_native operation arguments (calls.invoke _) (by decide) (Host.yields_invoke found comes)
    refine ⟨_, callArguments_of_values w shows' distinct keys bound' evaluated _, ?_, ?_⟩
    · intro d after succeeds
      have kept := Host.Yields.set (called succeeds) result
      rw [← variable', Keyed.modify_append_of_not_mem _ absent, modify_stepVariable w named] at kept
      rw [← variable']
      exact opened (.block_single rfl kept)
    · intro e after fails
      have halts := called fails
      exact opened (.block_halt rfl (Host.Yields.set_halt halts))

end Statements

end PipelineGraph

end Pipewright
