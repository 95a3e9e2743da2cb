import Pipewright.DataType.Document
import Pipewright.Script.Printer

/-! # Spelling types and literals
Expressions that evaluate to a given type or literal. What has no readable spelling, such as a class
whose name is no identifier, an external type, a tuple or a dictionary, is spelled as the document
of it, which the module `blob` reads. -/

namespace Pipewright

open Script (Expr)

/-! ## Names of the host's modules -/

/-- The names of the modules that the host offers to programs. -/
inductive HostModule where
  | types | annotations | scene | operations | progress | blob
deriving DecidableEq, Repr

/-- The name by which programs know a module. -/
def HostModule.name : HostModule → String
  | .types => "types"
  | .annotations => "annotations"
  | .scene => "scene"
  | .operations => "operations"
  | .progress => "progress"
  | .blob => "blob"

/-- All modules. -/
def HostModule.all : List HostModule :=
  [.types, .annotations, .scene, .operations, .progress, .blob]

/-- A constant of a module. -/
def HostModule.constant (m : HostModule) (name : String) : Expr := .constant m.name name

/-- A call of a function of a module. -/
def HostModule.call (m : HostModule) (function : String) (arguments : List Expr) : Expr :=
  .moduleCall m.name function arguments

/-- An array on one line. -/
def Script.Expr.items (items : List Expr) : Expr := .array .inline items

/-! ## Literals -/

namespace Value

mutual

/-- The expression that spells a literal. The least whole number has no literal of its own. -/
def spelling : Value → Expr
  | .int n =>
    if n = Int64.minValue then .paren (.binary .minus (.int (Int64.minValue + 1)) (.int 1))
    else .int n
  | .float x =>
    if x.isNaN then .call "parse_float" [.str "NaN"]
    else if x.isInf then .call "parse_float" [.str (if 0 < x then "inf" else "-inf")]
    else .float x
  | .str text => .str text
  | .bool b => .bool b
  | .list items => .items (spellings items)
  | .tuple items => HostModule.blob.call "value_from_json" [.str (toText (.tuple items))]
  | .dict pairs => HostModule.blob.call "value_from_json" [.str (toText (.dict pairs))]

/-- The expressions that spell a list of literals. -/
def spellings : List Value → List Expr
  | [] => []
  | item :: items => spelling item :: spellings items

end

/-- The code of a literal. -/
def code (v : Value) : String := v.spelling.text ""

mutual

/-- The modules that the spelling of a literal uses. -/
def modules : Value → List HostModule
  | .tuple _ => [.blob]
  | .dict _ => [.blob]
  | .list items => modulesOfItems items
  | _ => []

/-- The modules that the spellings of a list of literals use. -/
def modulesOfItems : List Value → List HostModule
  | [] => []
  | item :: items => modules item ++ modulesOfItems items

end

end Value

/-! ## Annotations -/

namespace Annotation

/-- The expression that spells an annotation. -/
def spelling (a : Annotation) : Expr :=
  HostModule.annotations.call a.constructorName (a.arguments.map Value.spelling)

/-- The modules that the spelling of an annotation uses, but for that of annotations. -/
def modules (a : Annotation) : List HostModule := a.arguments.flatMap Value.modules

end Annotation

/-! ## Types -/

namespace DataType

mutual

/-- The expression that spells a type. A layer without annotations is left out. -/
def spelling : DataType → Expr
  | .unit => HostModule.types.constant "unit"
  | .int => HostModule.types.constant "int"
  | .float => HostModule.types.constant "float"
  | .str => HostModule.types.constant "str"
  | .bool => HostModule.types.constant "bool"
  | .progress => HostModule.types.constant "progress"
  | .list item => HostModule.types.call "list" [spelling item]
  | .dict key value => HostModule.types.call "dict" [spelling key, spelling value]
  | .tuple items => HostModule.types.call "tuple" [.items (spellings items)]
  | .node c =>
    if Script.isIdentifier c.name then HostModule.scene.constant c.name
    else HostModule.blob.call "type_from_json" [.str (toText (.node c))]
  | .pack name fields => HostModule.types.call "pack" [.str name, .items (spellingFields fields)]
  | .annotated inner [] => spelling inner
  | .annotated inner (a :: as) =>
    HostModule.types.call "annotated" [spelling inner, .items ((a :: as).map Annotation.spelling)]
  | .external name => HostModule.blob.call "type_from_json" [.str (toText (.external name))]

/-- The expressions that spell a list of types. -/
def spellings : List DataType → List Expr
  | [] => []
  | item :: items => spelling item :: spellings items

/-- The expressions that spell a list of fields, each an array of its name and its type. -/
def spellingFields : List (String × DataType) → List Expr
  | [] => []
  | (name, t) :: fields => .items [.str name, spelling t] :: spellingFields fields

end

/-- The code of a type. -/
def code (t : DataType) : String := t.spelling.text ""

/-- The modules that one layer of a type's spelling uses. -/
def layerModules : DataType → List HostModule
  | .node c => if Script.isIdentifier c.name then [.scene] else [.blob]
  | .external _ => [.blob]
  | .annotated _ as => .annotations :: as.flatMap Annotation.modules
  | _ => [.types]

/-- The modules that the spelling of a type uses. -/
def modules (t : DataType) : List HostModule := t.nested.flatMap layerModules

end DataType

end Pipewright
