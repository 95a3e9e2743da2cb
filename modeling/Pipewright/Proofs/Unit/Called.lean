import Pipewright.Proofs.Unit.Finish
import Pipewright.Proofs.Unit.Loaded

/-! # Running a loaded unit
A unit is run on its inputs alone, with a progress callback, or also with the choice whether nodes
are removed. Whichever way it is run, it ends as the function does that runs its pipeline. -/

namespace Pipewright

open Host (Environment Yields evalBlock evalExpr evalItems callFunction functionResult)
open Script (Expr Function Stmt)

/-! ## Ways to run a unit -/

/-- A way to run a unit. -/
inductive RunMode where
  /-- On its inputs alone. -/
  | plain
  /-- With a progress callback. -/
  | reporting (callback : Progress.Callback)
  /-- With a progress callback and the choice whether nodes are removed. -/
  | choosing (callback : Progress.Callback) (removes : Bool)

namespace RunMode

/-- Whether nodes are removed; they are, unless something else is chosen. -/
def removes : RunMode → Bool
  | .choosing _ removes => removes
  | _ => true

/-- What stands behind the inputs among the arguments. -/
def arguments : RunMode → List Datum
  | .plain => []
  | .reporting callback => [.progress callback]
  | .choosing callback removes => [.progress callback, .bool removes]

/-- The callback that the pipeline reports to, and the world in which it starts. Where no callback is
given, a new one is made. -/
def start (w : World) : RunMode → Progress.Callback × World
  | .plain => (w.board.addPlain.1, { w with board := w.board.addPlain.2 })
  | .reporting callback => (callback, w)
  | .choosing callback _ => (callback, w)

/-- Making a callback leaves the nodes alone. -/
@[simp] theorem scene_start (m : RunMode) (w : World) : (m.start w).2.scene = w.scene := by
  cases m <;> rfl

/-- The function that runs a pipeline in some way, among those with a body. -/
def function (run : String) (slots : List String) (body : List Stmt) : RunMode → Function
  | .plain => ⟨run, slots, [.value (.call run (slots.map Expr.var ++
      [HostModule.progress.call "noop" [], .bool true]))]⟩
  | .reporting _ => ⟨run, slots ++ [callbackName], [.value (.call run (slots.map Expr.var ++
      [.var callbackName, .bool true]))]⟩
  | .choosing _ _ => ⟨run, slots ++ [callbackName, removalName], body⟩

/-- A generated program has a function for every way. -/
theorem function_mem (m : RunMode) (run : String) (slots : List String) (body : List Stmt) :
    m.function run slots body ∈ runFunctions run slots body := by
  cases m <;> simp [function, runFunctions]

end RunMode

/-- Run a unit in some way. -/
def Host.runIn (h : Host) (u : LoadedUnit) (inputs : List Datum) :
    RunMode → Except Failure Datum × Host
  | .plain => h.runUnit u inputs
  | .reporting callback => h.runWithProgress u inputs callback
  | .choosing callback removes => h.runWithOptions u inputs callback removes

/-- A unit is run by a call of the function that runs it. -/
theorem Host.runIn_eq (h : Host) (u : LoadedUnit) (inputs : List Datum) (m : RunMode) :
    h.runIn u inputs m = h.call u u.runFunction (inputs ++ m.arguments) := by
  cases m with
  | plain =>
    rw [RunMode.arguments, List.append_nil]
    rfl
  | _ => rfl

/-- A callback of its own is made where none is given. -/
theorem Host.yields_noop {env : Environment} {s : Entries} {w : World} :
    Yields (env.callModule HostModule.progress.name "noop" []) s w
      (.ok (.progress w.board.addPlain.1)) s { w with board := w.board.addPlain.2 } :=
  fun budget => .inr ⟨budget, rfl⟩

/-! ## The functions that run a pipeline -/

namespace PipelineGraph

variable {g : PipelineGraph} {env : Environment} {pieces : List Piece} {piece : Piece}
  {name : String} {s : Settings} {inputs : List (SlotKey × Datum)} {outputs : List SlotKey}
  {steps : List Stmt} {returned : List Binding} {places : List Access} {scope : Entries}
  {before started : World} {callback : Progress.Callback} {removes : Bool}

/-- Something comes to the result of the function that runs a pipeline, in the world in which that
ends. -/
inductive YieldsEnd (g : PipelineGraph) (r : Registry) (inputs : List (SlotKey × Datum))
    (callback : Progress.Callback) (removes : Bool) (managed returned : List Access)
    (started : World) (x : Host.Eval Datum) (scope : Entries) (before : World) : Prop where
  /-- The function ends, and its result is come to. -/
  | of_finishes (ending : Except Host.Halt Datum) (after : World)
    (yields : Yields x scope before (functionResult ending) scope after)
    (finishes : g.Finishes r inputs callback removes managed returned
      (started.report callback "" 0 0 (Int64.ofNat g.pieces)) ending after)

/-- There is a step behind the first one. -/
theorem RunParts.inner {r : Registry} {inputs : List SlotKey} (w : g.Wired r)
    (parts : g.RunParts r name s piece inputs outputs steps returned places) : 1 ≤ g.lastStep := by
  have several := parts.several
  rw [w.groups_eq, List.length_map, List.length_range] at several
  omega

/-- What runs the pipeline looks into values with functions of its own unit. -/
theorem RunParts.searches {r : Registry} {inputs : List SlotKey} (holds : env.Holds pieces)
    (m : piece ∈ pieces) (parts : g.RunParts r name s piece inputs outputs steps returned places) :
    env.Searches := by
  have provides : ∀ f ∈ piece.functions, env.Provides f := fun f m' =>
    holds.provides f (List.mem_flatMap.2 ⟨piece, m, m'⟩)
  exact
    { typeOf := holds.lacks _ (by decide)
      values := holds.lacks _ (by decide)
      member := provides _ (by simp [parts.functions])
      referenced := provides _ (by simp [parts.functions]) }

section Called

variable (holds : env.Holds pieces) (m : piece ∈ pieces) (w : g.Wired env.registry)
  (built : env.registry.Built)
  (parts : g.RunParts env.registry name s piece (inputs.map Prod.fst) outputs steps returned places)

/-- The body of the function that runs the pipeline. -/
def RunParts.body {r : Registry} {inputs : List SlotKey}
    (_ : g.RunParts r name s piece inputs outputs steps returned places) : List Stmt :=
  runBody g steps (g.cleanupStmts places (returned.filterMap Binding.access?) inputs)
    (resultExpr (name ++ "Outputs") returned)

include holds m in
/-- The program provides a function for every way to run the unit. -/
theorem RunParts.provides (mode : RunMode) :
    env.Provides (mode.function s.runFunction ((inputs.map Prod.fst).map SlotKey.slot)
      parts.body) := by
  refine holds.provides _ (List.mem_flatMap.2 ⟨piece, m, ?_⟩)
  rw [parts.functions]
  refine List.mem_cons_of_mem _ (List.mem_cons_of_mem _ (List.mem_append_right _ ?_))
  exact mode.function_mem _ _ _

include holds m w built in
/-- The function with all parameters, called on its arguments, ends as the pipeline does. -/
theorem RunParts.yields_choosing {own : Function} (depth : Nat)
    (parameters : own.parameters = ((inputs.map Prod.fst).map SlotKey.slot) ++
      [callbackName, removalName])
    (same : ∀ call v, evalBlock env call v own.body = evalBlock env call v parts.body) :
    g.YieldsEnd env.registry inputs callback removes places (returned.filterMap Binding.access?)
      before (callFunction env (depth + 1) own (inputs.map Prod.snd ++
        [Datum.progress callback, Datum.bool removes])) scope before := by
  have named := namedKeys_of_orderedInputs w parts.named parts.ordered
  have named' := namedKeys_of_orderedOutputs w parts.named parts.ordered'
  have provides : 1 < returned.length → env.Provides (outputsFunction (name ++ "Outputs") outputs) :=
    fun several => holds.provides _ (List.mem_flatMap.2 ⟨piece, m, by
      simp [parts.functions, if_pos several]⟩)
  obtain ⟨ending, inner, after, ends, finishes⟩ : ∃ ending inner after,
      Yields (evalBlock env (callFunction env depth) .unit parts.body)
        (callScope inputs callback removes) before ending inner after ∧
      g.Finishes env.registry inputs callback removes places (returned.filterMap Binding.access?)
        (before.report callback "" 0 0 (Int64.ofNat g.pieces)) ending after :=
    yields_runBody holds.calls (parts.searches holds m) w built (parts.inner w) named named'
      parts.generated parts.bound parts.managed provides
  -- parameters and arguments pair up to the variables that the body starts from
  have zipped : (((inputs.map Prod.fst).map SlotKey.slot ++ [callbackName, removalName]).zip
      (inputs.map Prod.snd ++ [Datum.progress callback, Datum.bool removes])).reverse =
      callScope inputs callback removes := by
    rw [List.map_map, List.zip_append (by simp), List.zip_map']
    simp [callScope]
  rw [← zipped] at ends
  let long : Function :=
    ⟨s.runFunction, (inputs.map Prod.fst).map SlotKey.slot ++ [callbackName, removalName], parts.body⟩
  have called : Yields (callFunction env (depth + 1) own (inputs.map Prod.snd ++
      [Datum.progress callback, Datum.bool removes])) scope before (functionResult ending) scope after :=
    @Host.Yields.callFunction_succ _ _ _ _ long _ _ _ _ _ parameters same ends
  exact ⟨ending, after, called, finishes⟩

/-- The variables of the inputs hold them, also behind variables that every generated program has. -/
theorem lookup_slot (w : g.Wired env.registry) (named : g.NamedKeys 0 (inputs.map Prod.fst))
    {own : Entries} (own' : ∀ name ∈ Keyed.keys own, name ∈ ownNames) :
    ∀ entry ∈ inputs, Keyed.lookup entry.1.slot
      (own ++ (inputs.map fun entry => (entry.1.slot, entry.2)).reverse) = some entry.2 := by
  intro entry m
  have apart : entry.1.slot ∉ Keyed.keys own := fun m' =>
    ne_of_nameFault? (named.named _ (List.mem_map_of_mem m)) (own' _ m') rfl
  rw [Keyed.lookup_append_of_not_mem apart]
  refine Keyed.lookup_of_mem_of_nodup ?_ (List.mem_reverse.2 (List.mem_map.2 ⟨entry, m, rfl⟩))
  have once := named.nodup_slots w (.inl rfl)
  unfold Keyed.keys
  rw [List.map_map] at once
  rw [List.map_reverse, List.nodup_reverse, List.map_map]
  exact once

/-- The variables of the inputs evaluate to them, and what stands behind them to what it does. -/
theorem yields_arguments {call : Host.Caller} {more : List Expr} {ds : List Datum} {after : World}
    (shown : ∀ entry ∈ inputs, Keyed.lookup entry.1.slot scope = some entry.2)
    (h : Yields (evalItems env call more) scope before (.ok ds) scope after) :
    Yields (evalItems env call
      (((inputs.map Prod.fst).map SlotKey.slot).map Expr.var ++ more)) scope before
      (.ok (inputs.map Prod.snd ++ ds)) scope after := by
  induction inputs with
  | nil => exact h
  | cons entry inputs ih =>
    obtain ⟨first, others⟩ := List.forall_mem_cons.1 shown
    exact .items_cons (.var first) (ih others)

/-- Leaving a function twice is leaving it once. -/
theorem functionResult_idem (r : Except Host.Halt Datum) :
    functionResult (functionResult r) = functionResult r := by
  cases r with
  | ok d => rfl
  | error halt => cases halt <;> rfl

include holds m w built parts in
/-- A function that calls the one with all parameters on its own inputs ends as the pipeline does. -/
theorem RunParts.yields_again {f own : Function} (depth : Nat) (names : List String)
    (given : List Datum) (more : List Expr)
    (known : ∀ name ∈ names, name ∈ ownNames)
    (parameters : f.parameters = (inputs.map Prod.fst).map SlotKey.slot ++ names)
    (body : f.body = [.value (.call s.runFunction
      (((inputs.map Prod.fst).map SlotKey.slot).map Expr.var ++ more))])
    (parameters' : own.parameters = f.parameters)
    (same : ∀ call v, evalBlock env call v own.body = evalBlock env call v f.body)
    (h : ∀ others : Entries, Yields (evalItems env (callFunction env (depth + 1)) more)
      ((names.zip given).reverse ++ others) before (.ok [Datum.progress callback, Datum.bool removes])
      ((names.zip given).reverse ++ others) started) :
    g.YieldsEnd env.registry inputs callback removes places (returned.filterMap Binding.access?)
      started (callFunction env (depth + 2) own (inputs.map Prod.snd ++ given)) scope before := by
  have named := namedKeys_of_orderedInputs w parts.named parts.ordered
  let slots : Entries := (inputs.map fun entry => (entry.1.slot, entry.2)).reverse
  -- the further arguments hide none of the inputs: they have names of their own
  have zipped : (f.parameters.zip (inputs.map Prod.snd ++ given)).reverse =
      (names.zip given).reverse ++ slots := by
    rw [parameters, List.map_map, List.zip_append (by simp), List.zip_map', List.reverse_append]
    rfl
  have among : ∀ name ∈ Keyed.keys (names.zip given).reverse, name ∈ ownNames := by
    intro name m'
    obtain ⟨⟨name, d⟩, m'', rfl⟩ := List.mem_map.1 m'
    exact known _ (List.of_mem_zip (List.mem_reverse.1 m'')).1
  have arguments : Yields (evalItems env (callFunction env (depth + 1))
      (((inputs.map Prod.fst).map SlotKey.slot).map Expr.var ++ more))
      ((names.zip given).reverse ++ slots) before
      (.ok (inputs.map Prod.snd ++ [Datum.progress callback, Datum.bool removes]))
      ((names.zip given).reverse ++ slots) started :=
    yields_arguments (lookup_slot w named among) (h slots)
  obtain ⟨long, found, parameters'', same'⟩ := parts.provides holds m (.choosing callback removes)
  have found' : env.program.function? s.runFunction
      (inputs.map Prod.snd ++ [Datum.progress callback, Datum.bool removes]).length = some long := by
    rw [← found]
    simp [RunMode.function, Function.arity]
  obtain ⟨ending, after, called, finishes⟩ : g.YieldsEnd env.registry inputs callback removes places
      (returned.filterMap Binding.access?) started (callFunction env (depth + 1) long
        (inputs.map Prod.snd ++ [Datum.progress callback, Datum.bool removes]))
      ((names.zip given).reverse ++ slots) started :=
    parts.yields_choosing holds m w built depth parameters'' same'
  have ends : Yields (evalBlock env (callFunction env (depth + 1)) .unit f.body)
      (f.parameters.zip (inputs.map Prod.snd ++ given)).reverse before (functionResult ending)
      ((names.zip given).reverse ++ slots) after := by
    rw [zipped, body]
    exact .block_single rfl (.value (.call_function arguments found' called))
  have left : Yields (callFunction env (depth + 2) own (inputs.map Prod.snd ++ given)) scope before
      (functionResult (functionResult ending)) scope after :=
    .callFunction_succ parameters' same ends
  -- leaving two functions is as leaving one
  rw [functionResult_idem] at left
  exact ⟨ending, after, left, finishes⟩

include holds m w built in
/-- However the unit is run, its function ends as the pipeline does. -/
theorem RunParts.yields_function (depth : Nat) (mode : RunMode) {own : Function}
    (parameters : own.parameters =
      (mode.function s.runFunction ((inputs.map Prod.fst).map SlotKey.slot) parts.body).parameters)
    (same : ∀ call v, evalBlock env call v own.body = evalBlock env call v
      (mode.function s.runFunction ((inputs.map Prod.fst).map SlotKey.slot) parts.body).body) :
    g.YieldsEnd env.registry inputs (mode.start before).1 mode.removes places
      (returned.filterMap Binding.access?) (mode.start before).2
      (callFunction env (depth + 2) own (inputs.map Prod.snd ++ mode.arguments)) scope before := by
  cases mode with
  | choosing callback removes =>
    exact parts.yields_choosing holds m w built (depth + 1) parameters same
  | reporting callback =>
    refine parts.yields_again holds m w built depth [callbackName] [.progress callback]
      [.var callbackName, .bool true] (by decide) rfl rfl parameters same fun others => ?_
    exact .items_cons (.var rfl) (.items_cons (.bool true) .items_nil)
  | plain =>
    refine parts.yields_again holds m w built depth [] [] [HostModule.progress.call "noop" [],
      .bool true] (by decide) (List.append_nil _).symm rfl parameters same fun others => ?_
    exact .items_cons (.moduleCall .items_nil Host.yields_noop)
      (.items_cons (.bool true) .items_nil)

end Called

end PipelineGraph

/-! ## Runs of a unit -/

namespace Host

variable {h h' : Host} {u : LoadedUnit} {function : String} {arguments : List Datum} {d : Datum}

/-- Whether something was stopped because a limit of the host was reached. -/
def isExhausted : Except Halt Datum → Bool
  | .error .exhausted => true
  | _ => false

/-- A call of a function of a unit reaches no limit of the host. -/
def Within (h : Host) (u : LoadedUnit) (function : String) (arguments : List Datum) : Prop :=
  isExhausted ((runFunctionOf (h.environment u.program) function arguments).run.run
    ⟨[], h.world, maxSteps⟩).1 = false

/-- A call that reaches no limit comes to what the function comes to. -/
theorem call_eq {ending : Except Halt Datum} {scope : Entries} {after : World}
    (yields : Yields (runFunctionOf (h.environment u.program) function arguments) [] h.world ending
      scope after) (within : h.Within u function arguments) :
    h.call u function arguments = ((result ending).mapError fun e =>
      (Failure.script e).within ("Failed to call " ++ u.name ++ "::" ++ function),
      { h with world := after }) := by
  unfold call run
  rcases yields maxSteps with stop | ⟨left, e⟩
  · rw [Within, stop] at within
    cases within
  · rw [e]

/-- A call that succeeds reaches no limit. -/
theorem within_of_isOk (ok : (h.call u function arguments).1.isOk = true) :
    h.Within u function arguments := by
  unfold call run at ok
  unfold Within
  generalize (runFunctionOf (h.environment u.program) function arguments).run.run
    ⟨[], h.world, maxSteps⟩ = out at ok ⊢
  obtain ⟨_ | d, after⟩ := out
  · next halt =>
    cases halt with
    | exhausted => cases ok
    | _ => rfl
  · rfl

/-- A call of a function of a unit that succeeds comes to the result and the world of the function,
which has not been stopped. -/
theorem eq_ok_of_call {ending : Except Halt Datum} {scope : Entries} {after : World}
    (yields : Yields (runFunctionOf (h.environment u.program) function arguments) [] h.world ending
      scope after) (ok : h.call u function arguments = (.ok d, h')) :
    result ending = .ok d ∧ h' = { h with world := after } := by
  have within : h.Within u function arguments := within_of_isOk (by rw [ok]; rfl)
  rw [call_eq yields within] at ok
  obtain ⟨outcome, same⟩ := Prod.mk.inj ok
  refine ⟨?_, same.symm⟩
  cases found : result ending with
  | error fault =>
    rw [found] at outcome
    cases outcome
  | ok d' =>
    rw [found] at outcome
    cases outcome
    rfl

end Host

namespace PipelineGraph

variable {g : PipelineGraph} {r : Registry} {name : String} {s : Settings}
  {inputs : List (SlotKey × Datum)} {h h' : Host} {u : LoadedUnit} {d : Datum} {text : String}
  {hasIcon : Bool}

/-- How a run of a unit that returns something went: all steps were run, and then nodes were removed
if they were to be. -/
structure Completed (g : PipelineGraph) (r : Registry) (inputs : List (SlotKey × Datum))
    (mode : RunMode) (before : World) (d : Datum) (left : Scene Entries) (e : Ending) (after : World)
    (outputs : List SlotKey) (returned : List Binding) (places : List Access) : Prop where
  /-- The overall inputs are those of the pipeline. -/
  named : g.NamedKeys 0 (inputs.map Prod.fst)
  /-- The overall outputs are those of the pipeline. -/
  named' : g.NamedKeys g.lastStep outputs
  /-- What is returned is what the outputs are bound to. -/
  bound : outputs.mapM g.binding = .ok returned
  /-- Nodes are removed from the managed places. -/
  managed : g.managed r = .ok places
  /-- All steps were run, one after another. -/
  completes : g.Completes r inputs (mode.start before).1
    ((mode.start before).2.report (mode.start before).1 "" 0 0 (Int64.ofNat g.pieces)) e after
  /-- None of them has failed. -/
  through : e.failure? = none
  /-- The pipeline returns what its outputs carry. -/
  returns : g.Returns Value.reading inputs e.results d
  /-- The nodes are those of the last step, but for those that were removed. -/
  left : left = (g.cleaned inputs mode.removes places (returned.filterMap Binding.access?)
    (g.endScope inputs (mode.start before).1 mode.removes e) after).scene

/-- A pipeline returns one value. -/
theorem Returns.unique {read : Value → Option Datum} {results : List (Nat × Datum)} {d' : Datum}
    (h : g.Returns read inputs results d) (h' : g.Returns read inputs results d') : d = d' := by
  cases h with
  | single only carried =>
    cases h' with
    | single only' carried' =>
      cases only.symm.trans only'
      exact carried.unique carried'
    | several more =>
      rw [only] at more
      exact absurd more (by simp)
  | several more sorted names carried =>
    cases h' with
    | single only =>
      rw [only] at more
      exact absurd more (by simp)
    | several _ sorted' names' carried' =>
      refine congrArg Datum.map (sorted.ext String.lt_irrefl String.lt_trans sorted' fun name => ?_)
      by_cases output : name ∈ (g.keysAt g.lastStep).map SlotKey.slot
      · obtain ⟨key, there, rfl⟩ := List.mem_map.1 output
        obtain ⟨d, found, carried⟩ := carried key there
        obtain ⟨d', found', carried'⟩ := carried' key there
        rw [found, found', carried.unique carried']
      · rw [Keyed.lookup_eq_none_iff.2 fun m => output ((names name).1 m),
          Keyed.lookup_eq_none_iff.2 fun m => output ((names' name).1 m)]

/-- A step that is stuck is not passed. -/
theorem Executes.not_getsStuck (w : g.Wired r) {callback : Progress.Callback} {steps : List Nat}
    {results : List (Nat × Datum)} {before after reached : World} {e : Ending}
    (h : g.Executes r Value.reading inputs callback steps results before e after) :
    ¬ g.GetsStuck r inputs callback steps results before reached := by
  -- a step whose operation is called has all its arguments
  have passed : ∀ {i o w' arguments results}, g.OperationAt r i o → g.CallArguments Value.reading
      inputs callback results i o w' arguments → ¬ g.Stuck r inputs i results := by
    rintro i o w' arguments results at' called ⟨o', at'', name, wired, nothing⟩
    cases w.operationAt_unique at' at''
    obtain ⟨d, -, carried⟩ := called.carried name wired
    exact nothing d carried
  induction h with
  | done => exact fun stuck => nomatch stuck
  | step at' called succeeds _ ih =>
    intro stuck
    cases stuck with
    | here _ stuck => exact passed at' called stuck
    | step at'' called' succeeds' others =>
      cases w.operationAt_unique at' at''
      cases called.unique called'
      cases succeeds.symm.trans succeeds'
      exact ih others
  | failed at' called fails =>
    intro stuck
    cases stuck with
    | here _ stuck => exact passed at' called stuck
    | step at'' called' succeeds' others =>
      cases w.operationAt_unique at' at''
      cases called.unique called'
      cases fails.symm.trans succeeds'

/-- The function that runs a pipeline can end in one way only, and in one world. -/
def EndsOnly (g : PipelineGraph) (r : Registry) (inputs : List (SlotKey × Datum))
    (callback : Progress.Callback) (removes : Bool) (managed returned : List Access)
    (started : World) (ending : Except Host.Halt Datum) (after : World) : Prop :=
  ∀ ending' after', g.Finishes r inputs callback removes managed returned started ending' after' →
    ending' = ending ∧ after' = after

/-- What ends with a result ends so in any case. -/
theorem Finishes.endsOnly (w : g.Wired r) {callback : Progress.Callback} {removes : Bool}
    {managed returned : List Access} {started after : World}
    (h : g.Finishes r inputs callback removes managed returned started (.ok d) after) :
    g.EndsOnly r inputs callback removes managed returned started (.ok d) after := by
  intro ending after' h'
  cases h with
  | returned completes through calm returns =>
    cases h' with
    | returned completes' through' calm' returns' =>
      obtain ⟨rfl, rfl⟩ := Executes.unique w completes completes'
      exact ⟨congrArg _ (returns'.unique returns), rfl⟩
    | raised completes' failure =>
      obtain ⟨rfl, rfl⟩ := Executes.unique w completes completes'
      cases through.symm.trans failure
    | strayed completes' stray =>
      obtain ⟨rfl, rfl⟩ := Executes.unique w completes completes'
      cases calm.symm.trans stray
    | stuck stuck => exact absurd stuck (Executes.not_getsStuck w completes)
    | missed completes' through' nothing =>
      obtain ⟨rfl, rfl⟩ := Executes.unique w completes completes'
      exact absurd returns (nothing _)

/-- What comes to a value ends with it. -/
theorem Finishes.eq_ok {callback : Progress.Callback} {removes : Bool}
    {managed returned : List Access} {started after : World} {ending : Except Host.Halt Datum}
    (h : g.Finishes r inputs callback removes managed returned started ending after)
    (ok : Host.result (functionResult ending) = .ok d) : ending = .ok d := by
  cases h with
  | returned => cases ok; rfl
  | raised => cases ok
  | strayed => cases ok
  | stuck => cases ok
  | @missed e last after halt seen completes through nothing caught =>
    -- what can be caught leaves no function with a value
    cases halt with
    | thrown d => cases ok
    | fault => cases ok
    | _ => cases caught

section Runs

variable {p : ValidatedPipeline} {pieces : List Piece} {piece : Piece} {name : String}
  {outputs : List SlotKey} {steps : List Stmt} {returned : List Binding} {places : List Access}

/-- However a unit is run, its function comes to what the pipeline comes to. -/
theorem Compiled.exists_finishes (c : g.Compiled h.registry s p u)
    (holds : Environment.Holds (h.environment u.program) pieces) (m : piece ∈ pieces)
    (parts : p.graph.RunParts h.registry name s piece (inputs.map Prod.fst) outputs steps returned
      places) (mode : RunMode) :
    ∃ ending after, Yields (Host.runFunctionOf (h.environment u.program) u.runFunction
        (inputs.map Prod.snd ++ mode.arguments)) [] h.world (functionResult ending) [] after ∧
      p.graph.Finishes h.registry inputs (mode.start h.world).1 mode.removes places
        (returned.filterMap Binding.access?)
        ((mode.start h.world).2.report (mode.start h.world).1 "" 0 0 (Int64.ofNat p.graph.pieces))
        ending after := by
  have w := c.wired
  obtain ⟨own, found, parameters, same⟩ := parts.provides holds m mode
  obtain ⟨ending, after, called, finishes⟩ : p.graph.YieldsEnd h.registry inputs
      (mode.start h.world).1 mode.removes places (returned.filterMap Binding.access?)
      (mode.start h.world).2 (callFunction (h.environment u.program) Host.maxCalls own
        (inputs.map Prod.snd ++ mode.arguments)) [] h.world :=
    parts.yields_function holds m w c.registered 62 mode parameters same
  have found' : (h.environment u.program).program.function? s.runFunction
      (inputs.map Prod.snd ++ mode.arguments).length = some own := by
    rw [← found]
    cases mode <;> simp [RunMode.function, RunMode.arguments, Function.arity]
  rw [c.runFunction_eq]
  exact ⟨ending, after, holds.yields_runFunctionOf found' called, finishes⟩

/-- A run of a unit that succeeds ends as the pipeline does. -/
theorem Compiled.finishes_of_runIn (c : g.Compiled h.registry s p u)
    (holds : Environment.Holds (h.environment u.program) pieces) (m : piece ∈ pieces)
    (parts : p.graph.RunParts h.registry name s piece (inputs.map Prod.fst) outputs steps returned
      places) (mode : RunMode) (ok : h.runIn u (inputs.map Prod.snd) mode = (.ok d, h')) :
    p.graph.Finishes h.registry inputs (mode.start h.world).1 mode.removes places
      (returned.filterMap Binding.access?)
      ((mode.start h.world).2.report (mode.start h.world).1 "" 0 0 (Int64.ofNat p.graph.pieces))
      (.ok d) h'.world := by
  obtain ⟨ending, after, ran, finishes⟩ := c.exists_finishes holds m parts mode
  rw [Host.runIn_eq] at ok
  obtain ⟨result, rfl⟩ := Host.eq_ok_of_call ran ok
  cases finishes.eq_ok result
  exact finishes

end Runs

/-- A run of the unit of a pipeline that succeeds has run all steps and returns what the outputs
carry, and then nodes were removed if they were to be. -/
theorem Compiled.exists_completed {p : ValidatedPipeline} (c : g.Compiled h.registry s p u)
    (ordered : p.graph.orderedInputs = .ok (inputs.map Prod.fst)) (mode : RunMode)
    (ok : h.runIn u (inputs.map Prod.snd) mode = (.ok d, h')) :
    ∃ e after outputs returned places, p.graph.Completed h.registry inputs mode h.world d
      h'.world.scene e after outputs returned places := by
  have w := c.wired
  obtain ⟨name, hasIcon, pieces, made, holds⟩ := c.exists_holds h.classes
  obtain ⟨-, parameters, run, widget, -, second, -, rfl⟩ := exists_unitPieces made
  obtain ⟨keys, outputs, steps, returned, places, parts⟩ := exists_runParts second
  cases ordered.symm.trans parts.ordered
  have m : run ∈ [metadataPiece name p h.registry s hasIcon, parameters, run, widget] := by simp
  have finishes := c.finishes_of_runIn holds m parts mode ok
  generalize h'.world = final at finishes ⊢
  cases finishes with
  | @returned e after _ completes through calm returns =>
    exact ⟨e, after, outputs, returned, places,
      { named := namedKeys_of_orderedInputs w parts.named parts.ordered
        named' := namedKeys_of_orderedOutputs w parts.named parts.ordered'
        bound := parts.bound
        managed := parts.managed
        completes := completes
        through := through
        returns := returns
        left := rfl }⟩

end PipelineGraph

end Pipewright
