import Pipewright.Datum.Text
import Pipewright.Host.Machine
import Pipewright.Registry
import Pipewright.Unit.Spelling

/-! # What the host offers to programs
The modules of the host with their constants and functions, and the functions that need no module. A
function that is given something it does not take for an argument at all is a fault of the program;
where the host itself looks into an argument, it raises a message. -/

namespace Pipewright.Host

/-- What programs can reach. -/
structure Environment where
  /-- The operations. -/
  registry : Registry
  /-- The node classes, of which the later of two of one name counts. -/
  classes : List NodeClass
  /-- The program that runs. -/
  program : Script.Program

/-! ## Types -/

/-- The type that an argument is. -/
def argumentType (context : String) (d : Datum) : Eval DataType :=
  demand (context ++ ": expected a type, found " ++ d.hostKind) d.type?

/-- The literal that an argument is. -/
def plainValue (context : String) (d : Datum) : Eval Value :=
  demand (context ++ ": " ++ d.hostKind ++ " is not a plain value") (Value.ofDatum? d)

/-- The field of a pack that is written as an array of a name and a type. -/
def packField (d : Datum) : Eval (String × DataType) :=
  match d with
  | .array [name, t] => do
    let name ← demand "pack field names must be strings" name.text?
    return (name, ← argumentType name t)
  | _ => raise "pack fields are written as [name, type]"

/-- The annotation that an argument is. -/
def argumentHint (d : Datum) : Eval Annotation :=
  demand ("annotated: expected an annotation, found " ++ d.hostKind) d.annotation?

/-- A function of the module of types. -/
def typesFunction (name : String) (arguments : List Datum) : Eval Datum :=
  match name, arguments with
  | "list", [item] => do return .type (.list (← argumentType "list" item))
  | "dict", [key, value] => do
    let key ← argumentType "dict" key
    return .type (.dict key (← argumentType "dict" value))
  | "tuple", [.array items] => do return .type (.tuple (← items.mapM (argumentType "tuple")))
  | "pack", [.text name, .array fields] => do
    return .type (.pack name (← fields.mapM packField))
  | "annotated", [inner, .array hints] => do
    let annotations ← hints.mapM argumentHint
    return .type (.annotated (← argumentType "annotated" inner) annotations)
  | "instantiate", [pack] => do
    let t ← argumentType "instantiate" pack
    match t.pack? with
    | some (_, fields) => return .map (Keyed.ofList (DataType.initialFields fields))
    | none => raise ("instantiate: " ++ t.display ++ " is not a pack")
  | _, _ => throw .fault

/-- A constant of the module of types. -/
def typesConstant? (name : String) : Option DataType :=
  match name with
  | "unit" => some .unit
  | "int" => some .int
  | "float" => some .float
  | "str" => some .str
  | "bool" => some .bool
  | "progress" => some .progress
  | _ => none

/-! ## Annotations -/

/-- A function of the module of annotations. -/
def annotationsFunction (name : String) (arguments : List Datum) : Eval Datum :=
  match name, arguments with
  | "minimum", [v] => do return .hint (.minimum (← plainValue name v))
  | "maximum", [v] => do return .hint (.maximum (← plainValue name v))
  | "default_value", [v] => do return .hint (.default (← plainValue name v))
  | "single_step", [v] => do return .hint (.singleStep (← plainValue name v))
  | "decimals", [.int places] => return .hint (.decimals places)
  | "within_range", [low, high] => do
    let low ← plainValue name low
    return .hint (.withinRange low (← plainValue name high))
  | _, _ => throw .fault

/-! ## Nodes -/

/-- Look at the scene. -/
def readScene {α : Type} (f : Scene Entries → α) : Eval α := do return f (← get).world.scene

/-- A function of the module of the scene. -/
def sceneFunction (name : String) (arguments : List Datum) : Eval Datum :=
  match name, arguments with
  | "remove_node", [.unit] => return .bool false
  | "remove_node", [.node handle] =>
    withWorld fun w =>
      (.bool (w.scene.contains handle.id), { w with scene := w.scene.removeNode handle.id })
  | "remove_node", [d] => raise ("remove_node: expected a node, found " ++ d.hostKind)
  | "contains", [.node handle] => readScene fun s => .bool (s.contains handle.id)
  | "contains", [_] => return .bool false
  | "same_node", [.node a, .node b] => return .bool (a.id == b.id)
  | "same_node", [_, _] => return .bool false
  | "reference_roles", [.node handle] =>
    readScene fun s =>
      match s.roles handle.id with
      | .ok roles => .array (roles.map .text)
      | .error _ => .array []
  | "has_reference", [.node holder, .text role, .node target] =>
    readScene fun s => .bool (s.hasReference holder.id role target.id)
  | "has_reference", [.node _, .text _, _] => return .bool false
  | "copy_node", [.node source, .node target] => do
    let m ← get
    match m.world.scene.copyContent source.id target.id with
    | .ok scene =>
      set { m with world := { m.world with scene := scene } }
      return .unit
    | .error e => raise e.message
  | _, _ => throw .fault

/-! ## Operations, progress and documents -/

/-- A function of the module of operations. -/
def operationsFunction (r : Registry) (name : String) (arguments : List Datum) : Eval Datum :=
  match name, arguments with
  | "get", [.text operation] =>
    if r.contains operation then return .operation operation
    else raise ("Operation '" ++ operation ++ "' is not registered")
  | _, _ => throw .fault

/-- A function of the module of progress callbacks. -/
def progressFunction (name : String) (arguments : List Datum) : Eval Datum :=
  match name, arguments with
  | "noop", [] =>
    withWorld fun w =>
      let (callback, board) := w.board.addPlain
      (.progress callback, { w with board := board })
  | _, _ => throw .fault

/-- A function of the module of documents. -/
def blobFunction (name : String) (arguments : List Datum) : Eval Datum :=
  match name, arguments with
  | "type_from_json", [.text text] =>
    demand name ((DataType.ofText? text).map .type)
  | "value_from_json", [.text text] =>
    demand name ((Value.ofText? text).map Value.toDatum)
  | _, _ => throw .fault

namespace Environment

/-! ## Modules -/

/-- The module of a name. -/
def module? (name : String) : Option HostModule :=
  HostModule.all.find? fun m => m.name == name

/-- The class of a name; of several ones the last. -/
def class? (env : Environment) (name : String) : Option NodeClass :=
  env.classes.reverse.find? fun c => c.name == name

/-- A constant of a module. -/
def constant? (env : Environment) (space name : String) : Option Datum :=
  match module? space with
  | some .types => (typesConstant? name).map .type
  | some .scene => (env.class? name).map fun c => .type (.node c)
  | _ => none

/-- Call a function of a module. -/
def callModule (env : Environment) (space name : String) (arguments : List Datum) : Eval Datum :=
  match module? space with
  | some .types => typesFunction name arguments
  | some .annotations => annotationsFunction name arguments
  | some .scene => sceneFunction name arguments
  | some .operations => operationsFunction env.registry name arguments
  | some .progress => progressFunction name arguments
  | some .blob => blobFunction name arguments
  | none => throw .fault

/-! ## Functions without a module -/

/-- Call an operation with the entries of a map as arguments. An error is raised as a message behind
the operation's name. -/
def invoke (env : Environment) (name : String) (arguments : Entries) : Eval Datum := do
  let o ← require (env.registry.operation? name)
  let result ← withWorld fun w => (o.call arguments).run.run w
  match result with
  | .ok d => return d
  | .error e => raise (o.name ++ ": " ++ e.message)

/-- Report a fraction of a piece to a callback. -/
def reportTo (callback : Progress.Callback) (pieceName : String) (fraction : Float)
    (piece pieces : Int64) : Eval Datum :=
  withWorld fun w => (.unit, w.report callback pieceName fraction piece pieces)

/-- Call a function of the host that needs no module; what it is called on comes first. -/
def callNative (env : Environment) (name : String) (arguments : List Datum) : Eval Datum :=
  match name, arguments with
  | "type_of", [d] => return .text d.kind
  | "to_string", [d] => return .text d.display
  | "values", [.map entries] => return .array (entries.map Prod.snd)
  | "parse_float", [.text text] => do
    let trimmed := String.ofList (Text.trim text.toList)
    return .float (← require (Decimal.readFloat? trimmed))
  | "invoke", [.operation operation, .map entries] => env.invoke operation entries
  | "report_progress", [.progress callback, .text pieceName, .float fraction, .int piece,
      .int pieces] => reportTo callback pieceName fraction piece pieces
  | "report_progress", [.progress callback, .text pieceName, .int fraction, .int piece,
      .int pieces] => reportTo callback pieceName (Float.ofInt fraction.toInt) piece pieces
  | "get_sub_callback", [.progress callback, .int piece, .int pieces] =>
    withWorld fun w =>
      let (sub, board) := w.board.addSub callback piece.toInt pieces.toInt
      (.progress sub, { w with board := board })
  | _, _ => throw .fault

end Environment

end Pipewright.Host
