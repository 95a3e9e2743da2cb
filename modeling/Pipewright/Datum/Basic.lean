import Pipewright.DataType.Display
import Pipewright.Progress

/-! # Script values
What variables of a script hold: plain data, and the types, annotations, nodes, progress callbacks
and operations that the host hands out. A literal becomes plain data, in which tuples are arrays and
the keys of maps are texts in ascending order; plain data becomes a literal again. -/

namespace Pipewright

/-- A value that scripts work with. -/
inductive Datum where
  /-- The value that stands for nothing. -/
  | unit
  /-- A truth value. -/
  | bool (b : Bool)
  /-- A whole number of 64 bits. -/
  | int (n : Int64)
  /-- A floating-point number. -/
  | float (x : Float)
  /-- A text. -/
  | text (s : String)
  /-- An array. -/
  | array (items : List Datum)
  /-- A map, its entries in ascending order of their keys. -/
  | map (entries : List (String × Datum))
  /-- A type. -/
  | type (t : DataType)
  /-- An annotation. -/
  | hint (a : Annotation)
  /-- A managed node. -/
  | node (handle : NodeHandle)
  /-- A progress callback. -/
  | progress (callback : Progress.Callback)
  /-- A registered operation. -/
  | operation (name : String)

namespace Datum

/-! ## Kinds -/

/-- The kind of a value, under the name by which scripts know it. -/
def kind : Datum → String
  | .unit => "()"
  | .bool _ => "bool"
  | .int _ => "i64"
  | .float _ => "f64"
  | .text _ => "string"
  | .array _ => "array"
  | .map _ => "map"
  | .type _ => "DataType"
  | .hint _ => "Annotation"
  | .node _ => "Node"
  | .progress _ => "ProgressCallback"
  | .operation _ => "OperationHandle"

/-- The kind of a value, under the name by which the host's messages call it: for what the host
hands out that is the full path of its definition. -/
def hostKind : Datum → String
  | .type _ => "pipeline_creator::types::DataType"
  | .hint _ => "pipeline_creator::types::annotation::Annotation"
  | .node _ => "pipeline_creator::scene::NodeHandle"
  | .progress _ => "pipeline_creator::progress::ProgressCallback"
  | .operation _ => "pipeline_creator::scripting::engine::OperationHandle"
  | d => d.kind

/-- The type that a value is, if it is one. -/
def type? : Datum → Option DataType
  | .type t => some t
  | _ => none

/-- The annotation that a value is, if it is one. -/
def annotation? : Datum → Option Annotation
  | .hint a => some a
  | _ => none

/-- The node that a value is, if it is one. -/
def node? : Datum → Option NodeHandle
  | .node handle => some handle
  | _ => none

/-- The text that a value is, if it is one. -/
def text? : Datum → Option String
  | .text s => some s
  | _ => none

/-- The items of a value that is an array. -/
def array? : Datum → Option (List Datum)
  | .array items => some items
  | _ => none

/-- The entries of a value that is a map. -/
def map? : Datum → Option (List (String × Datum))
  | .map entries => some entries
  | _ => none

/-- The progress callback that a value is, if it is one. -/
def progress? : Datum → Option Progress.Callback
  | .progress callback => some callback
  | _ => none

end Datum

/-! ## Plain data -/

namespace Value

/-- The text that a literal becomes as the key of a map. -/
def keyText : Value → String
  | .str text => text
  | v => v.display

mutual

/-- The script value of a literal. -/
def toDatum : Value → Datum
  | .int n => .int n
  | .float x => .float x
  | .str text => .text text
  | .bool b => .bool b
  | .list items => .array (toDatumItems items)
  | .tuple items => .array (toDatumItems items)
  | .dict pairs => .map (Keyed.ofList (toDatumPairs pairs))

/-- The script values of a list of literals. -/
def toDatumItems : List Value → List Datum
  | [] => []
  | item :: items => toDatum item :: toDatumItems items

/-- The entries of a list of pairs. -/
def toDatumPairs : List (Value × Value) → List (String × Datum)
  | [] => []
  | (k, v) :: pairs => (keyText k, toDatum v) :: toDatumPairs pairs

end

mutual

/-- The literal of a script value that holds nothing but plain data. -/
def ofDatum? : Datum → Option Value
  | .int n => some (.int n)
  | .float x => some (.float x)
  | .text s => some (.str s)
  | .bool b => some (.bool b)
  | .array items => (ofDatumItems? items).map .list
  | .map entries => (ofDatumEntries? entries).map .dict
  | _ => none

/-- The literals of a list of script values. -/
def ofDatumItems? : List Datum → Option (List Value)
  | [] => some []
  | item :: items => do
    let v ← ofDatum? item
    let vs ← ofDatumItems? items
    return v :: vs

/-- The pairs of a list of entries. -/
def ofDatumEntries? : List (String × Datum) → Option (List (Value × Value))
  | [] => some []
  | (key, d) :: entries => do
    let v ← ofDatum? d
    let pairs ← ofDatumEntries? entries
    return (.str key, v) :: pairs

end

end Value

/-! ## Fresh values -/

namespace DataType

mutual

/-- The value that a fresh slot of a type holds: the declared default, or else a value of the type
that says as little as possible, or nothing. -/
def initial : DataType → Datum
  | .annotated inner as =>
    match as.findSome? Annotation.default? with
    | some v => v.toDatum
    | none => initial inner
  | .int => .int 0
  | .float => .float 0
  | .str => .text ""
  | .bool => .bool false
  | .list _ => .array []
  | .dict _ _ => .map []
  | .tuple items => .array (initialItems items)
  | .pack _ fields => .map (Keyed.ofList (initialFields fields))
  | _ => .unit

/-- The values of fresh slots of a list of types. -/
def initialItems : List DataType → List Datum
  | [] => []
  | item :: items => initial item :: initialItems items

/-- The entries of fresh fields. -/
def initialFields : List (String × DataType) → List (String × Datum)
  | [] => []
  | (name, t) :: fields => (name, initial t) :: initialFields fields

end

end DataType

end Pipewright
