import Pipewright.Host.Unit

/-! # The host
It knows the registered operations and the node classes, keeps the scene and what progress callbacks
have seen, and runs units. -/

namespace Pipewright

/-- The host of units. -/
structure Host where
  /-- The operations. -/
  registry : Registry
  /-- The node classes that programs can name. -/
  classes : List NodeClass
  /-- The nodes and the progress reports. -/
  world : World
  /-- The units that are ready. -/
  cache : UnitCache
  /-- The name of the function that runs the units that are loaded from now on. -/
  runFunction : String

namespace Host

/-- The host for some operations. It also knows classes that no operation mentions, and the classes
that they descend from. -/
def new (r : Registry) (extra : List NodeClass) : Host where
  registry := r
  classes := extra.foldl Registry.addLineage r.nodeClasses
  world := .empty
  cache := .empty
  runFunction := Settings.standard.runFunction

/-! ## Loading -/

/-- Load a unit, unless it is ready already. -/
def load (h : Host) (name source : String) : Except Failure (LoadedUnit × Host) :=
  match h.cache.unit? name source with
  | some u => .ok (u, h)
  | none => (LoadedUnit.load name source h.runFunction).map fun u =>
    (u, { h with cache := h.cache.insert u })

/-- Load the unit of a file, whose text may be missing, under the name of the file without its
extension. -/
def loadFile (h : Host) (path : String) (text : Option String) :
    Except Failure (LoadedUnit × Host) :=
  match text with
  | none => .error ((Failure.of .storage).within ("Failed to read " ++ Path.quoted path))
  | some source =>
    match Path.stem? path with
    | none => .error (.script (.nameless path))
    | some name => h.load name source

/-- Forget a unit. -/
def unload (h : Host) (name : String) : Host := { h with cache := h.cache.erase name }

/-- Whether a text is a program. -/
def validate (source : String) : Except Failure Unit :=
  match Script.Program.ofText? source with
  | some _ => .ok ()
  | none => .error (.script .refused)

/-! ## Running -/

/-- What programs of the host can reach. -/
def environment (h : Host) (program : Script.Program) : Environment :=
  ⟨h.registry, h.classes, program⟩

/-- The result of a program that has come to an end. -/
def result : Except Halt Datum → Except ScriptError Datum
  | .ok d => .ok d
  | .error (.returned d) => .ok d
  | .error (.thrown d) => .error (.thrown d)
  | .error _ => .error .refused

/-- Run something on a fresh machine, in the host's world. -/
def run (h : Host) (body : Eval Datum) : Except ScriptError Datum × Host :=
  let (halt, after) := body.run.run ⟨[], h.world, maxSteps⟩
  (result halt, { h with world := after.world })

/-- Run the statements of a program outside its functions. -/
def runStatements (env : Environment) : Eval Datum :=
  evalBlock env (callFunction env maxCalls) .unit env.program.body

/-- Run the statements of a program, and then call one of its functions. -/
def runFunctionOf (env : Environment) (function : String) (arguments : List Datum) :
    Eval Datum := do
  let _ ← runStatements env
  callFunction env maxCalls (← require (env.program.function? function arguments.length)) arguments

/-- Call a function of a unit. -/
def call (h : Host) (u : LoadedUnit) (function : String) (arguments : List Datum) :
    Except Failure Datum × Host :=
  let (outcome, h) := h.run (runFunctionOf (h.environment u.program) function arguments)
  (outcome.mapError fun e =>
    (Failure.script e).within ("Failed to call " ++ u.name ++ "::" ++ function), h)

/-- Call a function of a unit that returns a map. -/
def callForMap (h : Host) (u : LoadedUnit) (function : String) (arguments : List Datum) :
    Except Failure Entries × Host :=
  let (outcome, h) := h.call u function arguments
  (outcome.bind fun
    | .map entries => .ok entries
    | d => .error (.script (.notMap function d.hostKind)), h)

/-- Run a unit on its inputs. -/
def runUnit (h : Host) (u : LoadedUnit) (inputs : List Datum) : Except Failure Datum × Host :=
  h.call u u.runFunction inputs

/-- Run a unit on its inputs, with a progress callback. -/
def runWithProgress (h : Host) (u : LoadedUnit) (inputs : List Datum)
    (callback : Progress.Callback) : Except Failure Datum × Host :=
  h.call u u.runFunction (inputs ++ [.progress callback])

/-- Run a unit on its inputs, with a progress callback and the choice whether nodes among the
results of its steps are removed. -/
def runWithOptions (h : Host) (u : LoadedUnit) (inputs : List Datum)
    (callback : Progress.Callback) (removes : Bool) : Except Failure Datum × Host :=
  h.call u u.runFunction (inputs ++ [.progress callback, .bool removes])

/-- A fresh parameter node of a unit. -/
def setup (h : Host) (u : LoadedUnit) : Except Failure Entries × Host :=
  h.callForMap u "setup" []

/-- Run a unit on a parameter node, maybe with a progress callback; the parameter node
afterwards. -/
def onRun (h : Host) (u : LoadedUnit) (node : Entries) (callback : Option Progress.Callback) :
    Except Failure Entries × Host :=
  h.callForMap u "on_run" (.map node :: (callback.map Datum.progress).toList)

/-- The metadata of a unit. -/
def metadata (h : Host) (u : LoadedUnit) : Except Failure Metadata × Host :=
  let (outcome, h) := h.callForMap u "module_info" []
  (outcome.bind fun entries =>
    (Metadata.ofEntries entries).mapError fun e =>
      (Failure.script e).within ("Invalid module info in '" ++ u.name ++ "'"), h)

/-! ## Evaluating code -/

/-- The value of a text that is a program. -/
def evaluate (h : Host) (code : String) : Except ScriptError Datum × Host :=
  match Script.Program.ofText? code with
  | none => (.error .refused, h)
  | some program => h.run (runStatements (h.environment program))

/-- The type that code stands for. -/
def evalType (h : Host) (code : String) : Except Failure DataType × Host :=
  let (outcome, h) := h.evaluate code
  match outcome with
  | .error e =>
    (.error ((Failure.script e).within ("Failed to evaluate type code `" ++ code ++ "`")), h)
  | .ok (.type t) => (.ok t, h)
  | .ok d => (.error (.script (.notType code d.hostKind)), h)

/-- The plain data that code stands for. -/
def evalValue (h : Host) (code : String) : Except Failure Value × Host :=
  let (outcome, h) := h.evaluate code
  match outcome with
  | .error e =>
    (.error ((Failure.script e).within ("Failed to evaluate value code `" ++ code ++ "`")), h)
  | .ok d =>
    match Value.ofDatum? d with
    | some v => (.ok v, h)
    | none => (.error (.script (.notPlain code d.hostKind)), h)

end Host

end Pipewright
