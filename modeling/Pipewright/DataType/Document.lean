import Pipewright.DataType.Basic
import Pipewright.Json.Reader

/-! # Literals and types as documents
Literals, annotations and types as JSON documents, and back. A constructor without arguments is its
name; one with arguments is an object with one entry, whose key is the name. A record is an object
with an entry for each field, and is also read from the array of its fields.

A reader goes at most 127 brackets deep. -/

namespace Pipewright

namespace Json

/-- How deep the brackets of a document may be nested. -/
def maxDepth : Nat := 127

/-- A constructor with arguments. -/
def tagged (tag : String) (body : Json) : Json := .object [(tag, body)]

/-- Go on behind one more bracket. -/
def enter? (room : Nat) : Option Nat :=
  match room with
  | 0 => none
  | room + 1 => some room

/-- The word of a whole number, if 64 bits hold it. -/
def int64? : Json → Option Int64
  | .number (.whole n) => word? n
  | _ => none

/-- A floating-point number; a whole number is read as one. -/
def float? : Json → Option Float
  | .number (.whole n) => some (Float.ofInt n)
  | .number (.real x) => some x
  | _ => none

/-- A text. -/
def str? : Json → Option String
  | .str text => some text
  | _ => none

/-- An array of texts. -/
def strings? : Json → Option (List String)
  | .array items => items.mapM str?
  | _ => none

/-- The entry of a field that occurs once. -/
def single? (key : String) (entries : List (String × Json)) : Option Json :=
  match entries.filter fun entry => entry.1 == key with
  | [(_, value)] => some value
  | _ => none

end Json

open Json (tagged enter? maxDepth)

/-! ## Literals -/

namespace Value

mutual

/-- The document of a literal. -/
def toJson : Value → Json
  | .int n => tagged "Int" (.number (.whole n.toInt))
  | .float x => tagged "Float" (.number (.real x))
  | .str text => tagged "Str" (.str text)
  | .bool b => tagged "Bool" (.bool b)
  | .list items => tagged "List" (.array (toJsonItems items))
  | .tuple items => tagged "Tuple" (.array (toJsonItems items))
  | .dict pairs => tagged "Dict" (.array (toJsonPairs pairs))

/-- The documents of a list of literals. -/
def toJsonItems : List Value → List Json
  | [] => []
  | item :: items => toJson item :: toJsonItems items

/-- The documents of a list of pairs. -/
def toJsonPairs : List (Value × Value) → List Json
  | [] => []
  | (k, v) :: pairs => .array [toJson k, toJson v] :: toJsonPairs pairs

end

mutual

/-- The literal of a document. -/
def ofJson? (room : Nat) : Json → Option Value
  | .object [(tag, body)] => do
    let room ← enter? room
    match tag, body with
    | "Int", body => (body.int64?).map .int
    | "Float", body => (body.float?).map .float
    | "Str", body => (body.str?).map .str
    | "Bool", .bool b => some (.bool b)
    | "List", .array items => (ofJsonItems? (← enter? room) items).map .list
    | "Tuple", .array items => (ofJsonItems? (← enter? room) items).map .tuple
    | "Dict", .array items => (ofJsonPairs? (← enter? room) items).map .dict
    | _, _ => none
  | _ => none

/-- The literals of a list of documents. -/
def ofJsonItems? (room : Nat) : List Json → Option (List Value)
  | [] => some []
  | item :: items => do
    let v ← ofJson? room item
    let vs ← ofJsonItems? room items
    return v :: vs

/-- The pairs of a list of documents. -/
def ofJsonPairs? (room : Nat) : List Json → Option (List (Value × Value))
  | [] => some []
  | .array [key, value] :: items => do
    let inner ← enter? room
    let k ← ofJson? inner key
    let v ← ofJson? inner value
    let pairs ← ofJsonPairs? room items
    return (k, v) :: pairs
  | _ :: _ => none

end

/-- The literal of a text. -/
def ofText? (text : String) : Option Value := (Json.parse? text).bind (ofJson? maxDepth)

/-- The text of a literal. -/
def toText (v : Value) : String := v.toJson.compact

end Value

/-! ## Annotations -/

namespace Annotation

/-- The document of an annotation. -/
def toJson : Annotation → Json
  | .decimals places => tagged "Decimals" (.number (.whole places.toInt))
  | .withinRange low high => tagged "WithinRange" (.array [low.toJson, high.toJson])
  | .minimum v => tagged "Minimum" v.toJson
  | .maximum v => tagged "Maximum" v.toJson
  | .default v => tagged "Default" v.toJson
  | .singleStep v => tagged "SingleStep" v.toJson

/-- The annotation of a document. -/
def ofJson? (room : Nat) : Json → Option Annotation
  | .object [(tag, body)] => do
    let room ← enter? room
    match tag, body with
    | "Decimals", body => (body.int64?).map .decimals
    | "WithinRange", .array [low, high] =>
      let room ← enter? room
      return .withinRange (← Value.ofJson? room low) (← Value.ofJson? room high)
    | "Minimum", body => (Value.ofJson? room body).map .minimum
    | "Maximum", body => (Value.ofJson? room body).map .maximum
    | "Default", body => (Value.ofJson? room body).map .default
    | "SingleStep", body => (Value.ofJson? room body).map .singleStep
    | _, _ => none
  | _ => none

end Annotation

/-! ## Types -/

namespace NodeClass

/-- The document of a class. -/
def toJson (c : NodeClass) : Json :=
  .object [("name", .str c.name), ("ancestors", .array (c.ancestors.map Json.str))]

/-- The class of a document. -/
def ofJson? (room : Nat) : Json → Option NodeClass
  | .object entries => do
    let _ ← enter? (← enter? room)
    return ⟨← (← Json.single? "name" entries).str?, ← (← Json.single? "ancestors" entries).strings?⟩
  | .array [name, ancestors] => do
    let _ ← enter? (← enter? room)
    return ⟨← name.str?, ← ancestors.strings?⟩
  | _ => none

end NodeClass

namespace DataType

mutual

/-- The document of a type. -/
def toJson : DataType → Json
  | .unit => .str "Unit"
  | .int => .str "Int"
  | .float => .str "Float"
  | .str => .str "Str"
  | .bool => .str "Bool"
  | .progress => .str "Progress"
  | .list item => tagged "List" (toJson item)
  | .dict key value => tagged "Dict" (.array [toJson key, toJson value])
  | .tuple items => tagged "Tuple" (.array (toJsonItems items))
  | .node c => tagged "Node" c.toJson
  | .pack name fields =>
    tagged "Pack" (.object [("name", .str name), ("fields", .array (toJsonFields fields))])
  | .annotated inner as =>
    tagged "Annotated" (.array [toJson inner, .array (as.map Annotation.toJson)])
  | .external name => tagged "Opaque" (.str name)

/-- The documents of a list of types. -/
def toJsonItems : List DataType → List Json
  | [] => []
  | item :: items => toJson item :: toJsonItems items

/-- The documents of a list of fields. -/
def toJsonFields : List (String × DataType) → List Json
  | [] => []
  | (name, t) :: fields => .array [.str name, toJson t] :: toJsonFields fields

end

/-- The type whose constructor has no arguments and a given name. -/
def plain? (tag : String) : Option DataType :=
  match tag with
  | "Unit" => some .unit
  | "Int" => some .int
  | "Float" => some .float
  | "Str" => some .str
  | "Bool" => some .bool
  | "Progress" => some .progress
  | _ => none

mutual

/-- The type of a document. -/
def ofJson? (room : Nat) : Json → Option DataType
  | .str tag => plain? tag
  | .object [(tag, body)] => do
    let room ← enter? room
    match tag, body with
    | "List", body => (ofJson? room body).map .list
    | "Dict", .array [key, value] =>
      let room ← enter? room
      return .dict (← ofJson? room key) (← ofJson? room value)
    | "Tuple", .array items => (ofJsonItems? (← enter? room) items).map .tuple
    | "Node", body => (NodeClass.ofJson? room body).map .node
    | "Pack", .object entries =>
      let name ← (← Json.single? "name" entries).str?
      match ← ofJsonEntries? (← enter? room) entries with
      | [fields] => some (.pack name fields)
      | _ => none
    | "Pack", .array [name, .array fields] =>
      return .pack (← name.str?) (← ofJsonFields? (← enter? (← enter? room)) fields)
    | "Annotated", .array [inner, .array as] =>
      let room ← enter? room
      let below ← enter? room
      let annotations ← as.mapM fun document => Annotation.ofJson? below document
      return .annotated (← ofJson? room inner) annotations
    | "Opaque", body => (body.str?).map .external
    | tag, .null => plain? tag
    | _, _ => none
  | _ => none

/-- The types of a list of documents. -/
def ofJsonItems? (room : Nat) : List Json → Option (List DataType)
  | [] => some []
  | item :: items => do
    let t ← ofJson? room item
    let ts ← ofJsonItems? room items
    return t :: ts

/-- The fields of a list of documents, each an array of a name and a type. -/
def ofJsonFields? (room : Nat) : List Json → Option (List (String × DataType))
  | [] => some []
  | .array [name, item] :: items => do
    let inner ← enter? room
    let name ← name.str?
    let t ← ofJson? inner item
    let fields ← ofJsonFields? room items
    return (name, t) :: fields
  | _ :: _ => none

/-- The lists of fields under every entry of a pack's document that is meant for them. -/
def ofJsonEntries? (room : Nat) :
    List (String × Json) → Option (List (List (String × DataType)))
  | [] => some []
  | (key, .array items) :: entries => do
    let others ← ofJsonEntries? room entries
    if key == "fields" then return (← ofJsonFields? (← enter? room) items) :: others
    else return others
  | (key, _) :: entries => if key == "fields" then none else ofJsonEntries? room entries

end

/-- The type of a text. -/
def ofText? (text : String) : Option DataType := (Json.parse? text).bind (ofJson? maxDepth)

/-- The text of a type. -/
def toText (t : DataType) : String := t.toJson.compact

end DataType

end Pipewright
