import Pipewright.Proofs.Unit.Places

/-! # The function that runs a pipeline
Its body declares variables for the results, runs the steps, removes nodes if it may, raises the
failure of a step again, and returns what the outputs carry. -/

namespace Pipewright

open Host (Environment Yields YieldsOption evalBlock evalExpr evalItems evalStmt callFunction)
open Script (Expr Stmt)

namespace Host

variable {env : Environment} {call : Caller} {s s' : Entries} {w w' : World}

/-- Variables that are declared one after another hold nothing. -/
theorem yields_declarations {names : List String} {stmts : List Stmt} {v : Datum}
    {r : Except Halt Datum}
    (h : ∀ v, Yields (evalBlock env call v stmts)
      ((names.map fun name => (name, Datum.unit)).reverse ++ s) w r s' w') :
    Yields (evalBlock env call v (names.map (fun name => .declare name (some .unit)) ++ stmts)) s w
      r s' w' := by
  induction names generalizing s v with
  | nil => exact h v
  | cons name names ih =>
    have declared : Yields (evalStmt env call (.declare name (some .unit))) s w (.ok .unit)
        ((name, .unit) :: s) w := .declared .unit
    refine .block_cons rfl declared (ih fun v => ?_)
    have rest := h v
    rw [List.map_cons, List.reverse_cons, List.append_assoc] at rest
    exact rest

/-- The values of bindings. -/
theorem yields_bindingItems (lacks : env.Lacks "parse_float") (bindings : List Binding) :
    YieldsOption (evalItems env call (bindings.map Binding.expr)) s w
      (bindings.mapM (Binding.value? s)) := by
  induction bindings with
  | nil => exact .items_nil
  | cons b bindings ih =>
    have first : YieldsOption (evalExpr env call b.expr) s w (b.value? s) := yields_binding lacks b
    rw [List.mapM_cons]
    cases e : b.value? s with
    | none =>
      rw [e] at first
      obtain ⟨halt, seen, caught, halts⟩ := first
      exact ⟨halt, seen, caught, .items_halt halts⟩
    | some d =>
      rw [e] at first
      cases e' : bindings.mapM (Binding.value? s) with
      | none =>
        rw [e'] at ih
        obtain ⟨halt, seen, caught, halts⟩ := ih
        exact ⟨halt, seen, caught, first.bind halts.bind_error⟩
      | some ds =>
        rw [e'] at ih
        exact .items_cons first ih

end Host

/-! ## Outputs -/

/-- The function that puts several outputs into a map does so. -/
theorem comes_outputsFunction (env : Environment) (w : World) (name : String)
    {outputs : List (SlotKey × Datum)} (once : (outputs.map fun entry => entry.1.slot).Nodup) :
    Yields.Comes env (outputsFunction name (outputs.map Prod.fst)) (outputs.map Prod.snd) w
      (.ok (.map (Keyed.ofList (outputs.map fun entry => (entry.1.slot, entry.2))))) w := by
  intro depth
  let scope : Entries := (outputs.map fun entry => (entry.1.slot, entry.2)).reverse
  have zipped : ((outputsFunction name (outputs.map Prod.fst)).parameters.zip
      (outputs.map Prod.snd)).reverse = scope := by
    unfold outputsFunction
    rw [List.map_map, List.zip_map']
    rfl
  have distinct : (Keyed.keys scope).Nodup := by
    unfold Keyed.keys
    rw [List.map_reverse, List.nodup_reverse, List.map_map]
    exact once
  -- for part of the outputs, since the scope of all of them stays while the list gets shorter
  have entries : ∀ listed : List (SlotKey × Datum), (∀ entry ∈ listed, entry ∈ outputs) →
      Yields (Host.evalEntries env (callFunction env depth)
        ((listed.map Prod.fst).map fun key => (key.slot, .var key.slot))) scope w
        (.ok (listed.map fun entry => (entry.1.slot, entry.2))) scope w := by
    intro listed among
    induction listed with
    | nil => exact .entries_nil
    | cons entry listed ih =>
      obtain ⟨key, d⟩ := entry
      have found : Keyed.lookup key.slot scope = some d := by
        refine Keyed.lookup_of_mem_of_nodup distinct (List.mem_reverse.2 ?_)
        exact List.mem_map.2 ⟨(key, d), among _ List.mem_cons_self, rfl⟩
      exact .entries_cons (.var found) (ih fun entry m => among entry (List.mem_cons_of_mem _ m))
  refine ⟨.ok _, scope, rfl, ?_⟩
  rw [zipped]
  exact .block_single rfl (.value (.object (entries outputs fun _ m => m)))

namespace PipelineGraph

variable {g : PipelineGraph} {inputs : List (SlotKey × Datum)} {callback : Progress.Callback}
  {removes failed : Bool} {results : List (Nat × Datum)} {failure : Datum} {env : Environment}
  {call : Host.Caller} {w w' : World} {locals : Entries}

/-- The variables with which the function that runs a pipeline is called. -/
def callScope (inputs : List (SlotKey × Datum)) (callback : Progress.Callback) (removes : Bool) :
    Entries :=
  (removalName, .bool removes) :: (callbackName, .progress callback) ::
    (inputs.map fun entry => (entry.1.slot, entry.2)).reverse

/-! ## Running the steps -/

/-- The variables of the steps are declared in front of those with which the function is called. -/
theorem runScope_eq (w : g.Wired env.registry) :
    g.runScope inputs callback removes [] false .unit =
      ("_failure", .unit) :: ("_failed", .bool false) ::
        ((g.resultVariables.map fun name => (name, .unit)).reverse ++
          callScope inputs callback removes) := by
  rw [w.resultVariables_eq, List.map_map]
  rfl

/-- Variables that were declared in front of those of the function are dropped behind a block. -/
theorem drop_runScope (locals : Entries) {results' : List (Nat × Datum)} {failed' : Bool}
    {failure' : Datum} :
    (locals ++ g.runScope inputs callback removes results failed failure).drop
      ((locals ++ g.runScope inputs callback removes results failed failure).length -
        (g.runScope inputs callback removes results' failed' failure').length) =
      g.runScope inputs callback removes results failed failure := by
  have same : (g.runScope inputs callback removes results' failed' failure').length =
      (g.runScope inputs callback removes results failed failure).length := by
    simp [runScope]
  rw [same, List.length_append, Nat.add_sub_cancel, List.drop_left]

/-- The handler notes the failure of a step. -/
theorem yields_handler (seen : Datum) :
    Yields (Host.inBlock do
      Host.declare "err" seen
      evalBlock env call .unit [.set "_failed" (.bool true), .set "_failure" (.var "err")])
      (g.runScope inputs callback removes results failed failure) w (.ok .unit)
      (g.runScope inputs callback removes results true seen) w := by
  have first : Yields (evalStmt env call (.set "_failed" (.bool true)))
      (("err", seen) :: g.runScope inputs callback removes results failed failure) w (.ok .unit)
      (("err", seen) :: g.runScope inputs callback removes results true failure) w :=
    .set (.bool true) rfl
  have second : Yields (evalStmt env call (.set "_failure" (.var "err")))
      (("err", seen) :: g.runScope inputs callback removes results true failure) w (.ok .unit)
      (("err", seen) :: g.runScope inputs callback removes results true seen) w :=
    .set (.var rfl) rfl
  refine (Host.Yields.declare_then
    (.block_cons rfl first (.block_single rfl second))).inBlock_dropping ?_
  exact drop_runScope [("err", seen)]

/-- Steps that go through leave their results. -/
theorem yields_attempt_ok {steps : List Stmt} {results' : List (Nat × Datum)} {v : Datum}
    (h : Yields (evalBlock env call .unit steps)
      (g.runScope inputs callback removes results failed failure) w (.ok v)
      (locals ++ g.runScope inputs callback removes results' failed failure) w') :
    Yields (evalStmt env call (.attempt steps (some "err")
        [.set "_failed" (.bool true), .set "_failure" (.var "err")]))
      (g.runScope inputs callback removes results failed failure) w (.ok v)
      (g.runScope inputs callback removes results' failed failure) w' :=
  .attempt_ok (h.inBlock_dropping (drop_runScope locals))

/-- Steps that do not go through leave the results so far, and what is seen of the halt. -/
theorem yields_attempt_caught {steps : List Stmt} {results' : List (Nat × Datum)}
    {halt : Host.Halt} {seen : Datum} (caught : halt.caught? = some seen)
    (h : Yields (evalBlock env call .unit steps)
      (g.runScope inputs callback removes results failed failure) w (.error halt)
      (locals ++ g.runScope inputs callback removes results' failed failure) w') :
    Yields (evalStmt env call (.attempt steps (some "err")
        [.set "_failed" (.bool true), .set "_failure" (.var "err")]))
      (g.runScope inputs callback removes results failed failure) w (.ok .unit)
      (g.runScope inputs callback removes results' true seen) w' :=
  .attempt_caught (h.inBlock_dropping (drop_runScope locals)) caught (yields_handler seen)

/-! ## Removing nodes -/

/-- What is raised when nodes are removed, if they are and something else is in the place of one. -/
def straying? (removes : Bool) (managed returned : List Access) (s : Entries) : Option String :=
  if removes then strayAt? (removable managed returned) s else none

/-- The world after nodes were removed, if they are. -/
def cleaned (g : PipelineGraph) (inputs : List (SlotKey × Datum)) (removes : Bool)
    (managed returned : List Access) (s : Entries) (w : World) : World :=
  if removes then
    w.releaseAll
      (Datum.nodesOfItems ((g.retained returned (inputs.map Prod.fst)).map fun a => a.read s))
      (nodesAt (removable managed returned) s)
  else w

/-- Removing nodes leaves what callbacks have seen. -/
@[simp] theorem board_cleaned {managed returned : List Access} (s : Entries) (w : World) :
    (g.cleaned inputs removes managed returned s w).board = w.board := by
  unfold cleaned
  split <;> rfl

/-- A place that is found in the variables of the function. -/
def Found (g : PipelineGraph) (inputs : List (SlotKey × Datum)) (a : Access) : Prop :=
  (∃ key ∈ inputs.map Prod.fst, a.base = key.slot) ∨
    ∃ i, 1 ≤ i ∧ i < g.lastStep ∧ a.base = g.stepVariable i

/-- The variable of a place that is found is there, and none that the removal of nodes declares. -/
theorem Found.contains {a : Access} (h : g.Found inputs a) (w : g.Wired env.registry)
    (named : g.NamedKeys 0 (inputs.map Prod.fst)) :
    Keyed.contains a.base (g.runScope inputs callback removes results failed failure) = true ∧
      a.base ≠ "_retained" := by
  obtain ⟨base, path⟩ := a
  rcases h with ⟨key, m, rfl⟩ | ⟨i, first, last, rfl⟩
  · obtain ⟨⟨key, d⟩, m', rfl⟩ := List.mem_map.1 m
    refine ⟨?_, ne_of_nameFault? (named.named key m) (by decide)⟩
    rw [Keyed.contains, lookup_input w named m']
    rfl
  · refine ⟨?_, (ne_of_mem_ownNames (by decide) (isStepName_returnVariable _ _)).symm⟩
    rw [Keyed.contains, lookup_stepVariable w named first last]
    rfl

/-- A place that a binding leads to is found. -/
theorem found_of_binding (w : g.Wired env.registry) (named : g.NamedKeys 0 (inputs.map Prod.fst))
    {key : SlotKey} {a : Access} (h : g.binding key = .ok (.access a)) : g.Found inputs a := by
  rcases access_of_binding w h with ⟨source, there, first, rfl⟩ |
    ⟨source, there, o, belongs, -, -, rfl⟩
  · exact .inl ⟨source, named.perm.mem_iff.2 (List.mem_filter.2 ⟨there, by simp [first]⟩), rfl⟩
  · obtain ⟨first, last, -⟩ := w.inner_of_bound there belongs.bound
    exact .inr ⟨source.step, first, last, rfl⟩

/-- A managed place is found. -/
theorem found_of_mem_managed (w : g.Wired env.registry) (built : env.registry.Built)
    {managed : List Access} (h : g.managed env.registry = .ok managed) {a : Access}
    (m : a ∈ managed) : g.Found inputs a := by
  obtain ⟨i, o, at', path, -, rfl⟩ := (mem_managed_iff w built h).1 m
  obtain ⟨first, last⟩ := w.inner_of_operationAt at'
  exact .inr ⟨i, first, last, rfl⟩

/-- Nodes are removed if they may be. -/
theorem yields_removing (depth : Nat) (before : World) (callback : Progress.Callback)
    (removes failed : Bool) (results : List (Nat × Datum)) (failure : Datum)
    (searches : env.Searches) (w : g.Wired env.registry) (built : env.registry.Built)
    (named : g.NamedKeys 0 (inputs.map Prod.fst)) {managed returned : List Access}
    (managed' : g.managed env.registry = .ok managed)
    (returned' : ∀ a ∈ returned, ∃ key, g.binding key = .ok (.access a)) :
    let s := g.runScope inputs callback removes results failed failure
    ∃ r after, Yields (evalStmt env (callFunction env depth) (.branch
        [(.var removalName, g.cleanupStmts managed returned (inputs.map Prod.fst))] []))
        s before r s after ∧
      match straying? removes managed returned s with
      | some message => r = .error (.thrown (.text message)) ∧ after.board = before.board
      | none => (∃ v, r = .ok v) ∧ after = g.cleaned inputs removes managed returned s before := by
  intro s
  have flag : Keyed.lookup removalName s = some (.bool removes) := lookup_removalName w named
  unfold straying? cleaned
  cases removes with
  | false => exact ⟨.ok .unit, before, .branch_skipped (.var flag), ⟨.unit, rfl⟩, rfl⟩
  | true =>
    -- what is managed, returned or given is in variables other than the one declared here
    have there : ∀ a ∈ removable managed returned ++ g.retained returned (inputs.map Prod.fst),
        Keyed.contains a.base s = true ∧ a.base ≠ "_retained" := by
      intro a m
      refine Found.contains ?_ w named
      rcases List.mem_append.1 m with m | m
      · exact found_of_mem_managed w built managed' (mem_removable_iff.1 m).1
      · rcases mem_retained_iff.1 m with m' | ⟨key, m', -, rfl⟩
        · obtain ⟨key, bound⟩ := returned' a m'
          exact found_of_binding w named bound
        · exact .inl ⟨key, m', rfl⟩
    obtain ⟨r, inner, after, removed, ends⟩ := Host.yields_cleanup depth before searches g there
    refine ⟨r, after, .branch_dropping (.var flag) removed ?_, ends⟩
    rw [List.length_append, Nat.add_sub_cancel, List.drop_left]

/-! ## Returning -/

/-- The values of bindings are what the slots carry; where there is none for one of them, a slot
carries none. -/
theorem carries_of_bindings {s : Entries} {bound : Nat} (shows' : g.Shows inputs results bound s)
    (w : g.Wired env.registry) {keys : List SlotKey} {bindings : List Binding}
    (h : List.Forall₂ (fun key b => g.binding key = .ok b) keys bindings)
    (le : ∀ key ∈ keys, key.step ≤ bound) :
    match bindings.mapM (Binding.value? s) with
    | some ds => List.Forall₂ (g.Carries Value.reading inputs results) keys ds
    | none => ∃ key ∈ keys, ∀ d, ¬ g.Carries Value.reading inputs results key d := by
  induction h with
  | nil => exact .nil
  | @cons key b keys bindings first _ ih =>
    have rest := ih fun key m => le key (List.mem_cons_of_mem _ m)
    have head : ∀ d, g.Carries Value.reading inputs results key d ↔ b.value? s = some d := fun d =>
      shows'.carries_iff w first (le key List.mem_cons_self)
    rw [List.mapM_cons]
    cases e : b.value? s with
    | none =>
      refine ⟨key, List.mem_cons_self, fun d carried => ?_⟩
      rw [head, e] at carried
      cases carried
    | some d =>
      cases e' : bindings.mapM (Binding.value? s) with
      | none =>
        rw [e'] at rest
        obtain ⟨key', m, none⟩ := rest
        exact ⟨key', List.mem_cons_of_mem _ m, none⟩
      | some ds =>
        rw [e'] at rest
        exact .cons ((head d).2 e) rest

/-- The expression of what is returned. -/
def resultExpr (outputsName : String) (returned : List Binding) : Expr :=
  match returned with
  | [single] => single.expr
  | _ => .call outputsName (returned.map Binding.expr)

/-- Something comes to what the pipeline returns, or to a halt that can be caught if it returns
nothing. -/
def YieldsReturn (g : PipelineGraph) (inputs : List (SlotKey × Datum))
    (results : List (Nat × Datum)) (x : Host.Eval Datum) (s : Entries) (w : World) : Prop :=
  (∃ d, g.Returns Value.reading inputs results d ∧ Yields x s w (.ok d) s w) ∨
    (∀ d, ¬ g.Returns Value.reading inputs results d) ∧
      ∃ halt seen, halt.caught? = some seen ∧ Yields x s w (.error halt) s w

section Return

variable {s : Entries} {depth : Nat} {before : World} {outputs : List SlotKey} {name : String}

/-- The expression of a single output evaluates to what that carries. -/
theorem yields_single (calls : env.Calls) (shows' : g.Shows inputs results g.lastStep s)
    (w : g.Wired env.registry) {key : SlotKey} {b : Binding}
    (only : g.keysAt g.lastStep = [key]) (bound : g.binding key = .ok b) :
    g.YieldsReturn inputs results (evalExpr env (callFunction env depth) b.expr) s before := by
  have comes : YieldsOption (evalExpr env (callFunction env depth) b.expr) s before
      (b.value? s) := Host.yields_binding calls.parse b
  have m : key ∈ g.keysAt g.lastStep := only ▸ List.mem_singleton_self key
  have carries : ∀ d, g.Carries Value.reading inputs results key d ↔ b.value? s = some d :=
    fun d => shows'.carries_iff w bound (w.step_le_lastStep (List.mem_filter.1 m).1)
  cases e : b.value? s with
  | some d =>
    rw [e] at comes
    exact .inl ⟨d, .single only ((carries d).2 e), comes⟩
  | none =>
    rw [e] at comes
    refine .inr ⟨fun d returns => ?_, comes⟩
    cases returns with
    | @single key' d only' carried =>
      cases only.symm.trans only'
      rw [carries, e] at carried
      cases carried
    | several more =>
      rw [only] at more
      simp at more

/-- The call that puts several outputs into a map evaluates to the map of what they carry. -/
theorem yields_several (calls : env.Calls) (shows' : g.Shows inputs results g.lastStep s)
    (w : g.Wired env.registry) (named : g.NamedKeys g.lastStep outputs) {returned : List Binding}
    (bound : outputs.mapM g.binding = .ok returned) (more : 1 < (g.keysAt g.lastStep).length)
    (provides : env.Provides (outputsFunction name outputs)) :
    g.YieldsReturn inputs results (evalExpr env (callFunction env depth)
      (.call name (returned.map Binding.expr))) s before := by
  have last : ∀ key ∈ outputs, key.step ≤ g.lastStep := fun key m =>
    w.step_le_lastStep (List.mem_filter.1 (named.perm.mem_iff.1 m)).1
  have carried := carries_of_bindings shows' w (mapM_eq_ok_iff.1 bound) last
  have items : YieldsOption (evalItems env (callFunction env depth)
      (returned.map Binding.expr)) s before (returned.mapM (Binding.value? s)) :=
    Host.yields_bindingItems calls.parse returned
  cases e : returned.mapM (Binding.value? s) with
  | none =>
    rw [e] at carried items
    obtain ⟨key, m, none⟩ := carried
    obtain ⟨halt, seen, caught, halts⟩ := items
    refine .inr ⟨fun d returns => ?_, halt, seen, caught, halts.bind_error⟩
    cases returns with
    | @single key' d only carried' =>
      have alone : key ∈ [key'] := only ▸ named.perm.mem_iff.1 m
      rw [List.mem_singleton.1 alone] at none
      exact none d carried'
    | several more sorted names carried' =>
      obtain ⟨d, -, carried''⟩ := carried' key (named.perm.mem_iff.1 m)
      exact none d carried''
  | some ds =>
    rw [e] at carried items
    -- the outputs with their values
    obtain ⟨length, each⟩ := List.forall₂_iff_zip.1 carried
    have keys : (outputs.zip ds).map Prod.fst = outputs := List.map_fst_zip (by omega)
    have values : (outputs.zip ds).map Prod.snd = ds := List.map_snd_zip (by omega)
    have once : ((outputs.zip ds).map fun entry => entry.1.slot).Nodup := by
      have := named.nodup_slots w (.inr rfl)
      rwa [← keys, List.map_map] at this
    have once' : (Keyed.keys ((outputs.zip ds).map fun entry => (entry.1.slot, entry.2))).Nodup := by
      rw [Keyed.keys, List.map_map]
      exact once
    have comes := comes_outputsFunction env before name once
    rw [keys, values] at comes
    have called : Yields (evalExpr env (callFunction env depth)
        (.call (outputsFunction name outputs).name (returned.map Binding.expr))) s before
        (.ok (.map (Keyed.ofList ((outputs.zip ds).map fun entry => (entry.1.slot, entry.2))))) s
        before := by
      refine .call_provided provides items ?_ comes
      unfold Script.Function.arity outputsFunction
      rw [List.length_map, length]
    refine .inl ⟨_, .several more (Keyed.sorted_ofList _) (fun name => ?_) (fun key m => ?_),
      called⟩
    · rw [← Keyed.isSome_lookup_iff, Keyed.lookup_ofList once', Keyed.isSome_lookup_iff,
        ← (named.perm.map SlotKey.slot).mem_iff]
      conv_rhs => rw [← keys]
      rw [Keyed.keys, List.map_map, List.map_map]
      rfl
    · rw [← named.perm.mem_iff, ← keys] at m
      obtain ⟨⟨key, d⟩, m', rfl⟩ := List.mem_map.1 m
      refine ⟨d, ?_, each m'⟩
      rw [Keyed.lookup_ofList once']
      exact Keyed.lookup_of_mem_of_nodup once' (List.mem_map.2 ⟨(key, d), m', rfl⟩)

/-- The last expression evaluates to what the pipeline returns. -/
theorem yields_result (depth : Nat) (before : World) (calls : env.Calls)
    (shows' : g.Shows inputs results g.lastStep s)
    (w : g.Wired env.registry) (named : g.NamedKeys g.lastStep outputs) {returned : List Binding}
    (bound : outputs.mapM g.binding = .ok returned)
    (provides : 1 < returned.length → env.Provides (outputsFunction name outputs)) :
    g.YieldsReturn inputs results
      (evalExpr env (callFunction env depth) (resultExpr name returned)) s before := by
  have bindings := mapM_eq_ok_iff.1 bound
  have counted : (g.keysAt g.lastStep).length = returned.length := by
    rw [← bindings.length_eq, named.perm.length_eq]
  obtain ⟨first, others, some', -, -⟩ := w.exists_keysAt_eq (Nat.le_refl g.lastStep)
  match returned, counted with
  | [], counted =>
    rw [some'] at counted
    simp at counted
  | [b], counted =>
    cases bindings with
    | @cons key _ _ _ head tail =>
      cases tail
      have only := List.singleton_perm.1 named.perm
      exact yields_single calls shows' w only.symm head
  | b :: b' :: rest, counted =>
    have more : 1 < (b :: b' :: rest).length := by simp
    exact yields_several calls shows' w named bound (counted ▸ more) (provides more)

end Return

end PipelineGraph

end Pipewright
