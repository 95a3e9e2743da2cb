import Pipewright.Datum.Basic
import Pipewright.Scene.Basic

/-! # Operations
The native operations that can be steps of a pipeline. An operation is called with named arguments,
one of which may be a progress callback, and acts on the scene and on the board of progress reports.
What it has done there stays done when it fails. -/

namespace Pipewright

/-- The entries of a map. -/
abbrev Entries := List (String × Datum)

/-- What operations act on. -/
structure World where
  /-- The managed nodes, with maps as content. -/
  scene : Scene Entries
  /-- What the progress callbacks have seen. -/
  board : Progress.Board Float

namespace World

/-- The world in which nothing has happened. -/
def empty : World := ⟨.empty, .empty⟩

/-- Report to a callback. -/
def report (w : World) (callback : Progress.Callback) (pieceName : String) (fraction : Float)
    (piece pieces : Int64) : World :=
  { w with board := w.board.report callback pieceName fraction piece.toInt pieces.toInt }

end World

/-- Why an operation fails. -/
inductive OperationError where
  /-- An argument is not there. -/
  | missingArgument (name : String)
  /-- An argument is of another kind than expected. -/
  | argumentType (name expected : String)
  /-- The operation itself gives up. -/
  | failed (message : String)
  /-- Something cannot be done to the scene. -/
  | scene (error : SceneError)
deriving DecidableEq, Repr

/-- The text of an error. -/
def OperationError.message : OperationError → String
  | .missingArgument name => "Missing argument '" ++ name ++ "'"
  | .argumentType name expected => "Argument '" ++ name ++ "' is not a " ++ expected
  | .failed message => message
  | .scene error => error.message

/-- The word for an error. -/
def OperationError.kind : OperationError → String
  | .missingArgument _ => "MissingArgument"
  | .argumentType _ _ => "ArgumentType"
  | .failed _ => "Failed"
  | .scene _ => "Scene"

/-- What an operation is called with. -/
structure OperationCall where
  /-- The name of the operation. -/
  operation : String
  /-- The arguments by name. -/
  arguments : Entries
  /-- The progress callback. -/
  progress? : Option Progress.Callback

namespace OperationCall

/-- An argument. -/
def argument (c : OperationCall) (name : String) : Except OperationError Datum :=
  match Keyed.lookup name c.arguments with
  | some d => .ok d
  | none => .error (.missingArgument name)

/-- An argument as seen by a view of values that may fail. -/
def view {α : Type} (c : OperationCall) (name expected : String) (view? : Datum → Option α) :
    Except OperationError α := do
  match view? (← c.argument name) with
  | some a => return a
  | none => throw (.argumentType name expected)

/-- A whole number. -/
def int (c : OperationCall) (name : String) : Except OperationError Int64 :=
  c.view name "int" fun
    | .int n => some n
    | _ => none

/-- A floating-point number; a whole one is converted. -/
def float (c : OperationCall) (name : String) : Except OperationError Float :=
  c.view name "float" fun
    | .float x => some x
    | .int n => some (Float.ofInt n.toInt)
    | _ => none

/-- A text. -/
def text (c : OperationCall) (name : String) : Except OperationError String :=
  c.view name "str" Datum.text?

/-- A truth value. -/
def bool (c : OperationCall) (name : String) : Except OperationError Bool :=
  c.view name "bool" fun
    | .bool b => some b
    | _ => none

/-- A managed node. -/
def node (c : OperationCall) (name : String) : Except OperationError NodeHandle :=
  c.view name "node" Datum.node?

/-- Plain data. -/
def value (c : OperationCall) (name : String) : Except OperationError Value :=
  c.view name "value" Value.ofDatum?

/-- The text of a call. -/
def outline (c : OperationCall) : String :=
  "OperationCall \x7b operation: " ++ Text.quoted c.operation ++ ", args: " ++
    Text.quotedList (Keyed.keys c.arguments) ++ ", has_progress: " ++
    Value.showBool c.progress?.isSome ++ " \x7d"

end OperationCall

/-- A registered operation. -/
structure Operation where
  /-- The name it is registered under. -/
  name : String
  /-- The parameters that steps wire, in the order of their declaration. -/
  parameters : List (String × DataType)
  /-- The type of what it returns. -/
  returns : DataType
  /-- The parameter that takes a progress callback. -/
  progress? : Option String
  /-- What it depends on, in ascending order. -/
  dependencies : List String
  /-- The categories it belongs to, in ascending order. -/
  categories : List String
  /-- What it does. -/
  implementation : OperationCall → ExceptT OperationError (StateM World) Datum

namespace Operation

/-- The type of a wired parameter. -/
def parameter? (o : Operation) (name : String) : Option DataType :=
  Keyed.lookup name o.parameters

/-- The first wired parameter for which there is no argument. -/
def missing? (o : Operation) (arguments : Entries) : Option String :=
  (o.parameters.find? fun p => !Keyed.contains p.1 arguments).map Prod.fst

/-- The call with some arguments. The argument of the progress parameter is taken out; if it is no
callback, there is none. -/
def callWith (o : Operation) (arguments : Entries) : OperationCall :=
  match o.progress? with
  | none => ⟨o.name, arguments, none⟩
  | some name =>
    ⟨o.name, Keyed.erase name arguments, (Keyed.lookup name arguments).bind Datum.progress?⟩

/-- Call an operation. Every wired parameter needs an argument. -/
def call (o : Operation) (arguments : Entries) : ExceptT OperationError (StateM World) Datum :=
  match o.missing? arguments with
  | some name => throw (.missingArgument name)
  | none => o.implementation (o.callWith arguments)

/-- The text of an operation. -/
def outline (o : Operation) : String :=
  let parameter (p : String × DataType) : String :=
    "(" ++ Text.quoted p.1 ++ ", " ++ p.2.outline ++ ")"
  let set (texts : List String) : String :=
    "\x7b" ++ ", ".intercalate (texts.map Text.quoted) ++ "\x7d"
  "OperationInfo \x7b name: " ++ Text.quoted o.name ++
    ", parameters: [" ++ ", ".intercalate (o.parameters.map parameter) ++
    "], return_type: " ++ o.returns.outline ++
    ", progress_parameter: " ++
    o.progress?.elim "None" (fun p => "Some(" ++ Text.quoted p ++ ")") ++
    ", dependencies: " ++ set o.dependencies ++ ", categories: " ++ set o.categories ++ " \x7d"

end Operation

end Pipewright
