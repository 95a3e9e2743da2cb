import Pipewright.DataType.Basic

/-! # Texts of types
The text that is shown for a type, and its outline, which names the kind of every part. -/

namespace Pipewright

/-- A class in an outline. -/
def NodeClass.outline (c : NodeClass) : String :=
  "NodeClass \x7b name: " ++ Text.quoted c.name ++ ", ancestors: " ++
    Text.quotedList c.ancestors ++ " \x7d"

namespace DataType

mutual

/-- The text that is shown for a type. Node classes, packs and external types show as their
names. -/
def display : DataType → String
  | .unit => "()"
  | .int => "int"
  | .float => "float"
  | .str => "str"
  | .bool => "bool"
  | .progress => "ProgressCallback"
  | .list item => "list[" ++ display item ++ "]"
  | .dict key value => "dict[" ++ display key ++ ", " ++ display value ++ "]"
  | .tuple items => "tuple[" ++ ", ".intercalate (displayItems items) ++ "]"
  | .node c => c.name
  | .pack name _ => name
  | .annotated inner as =>
    "Annotated[" ++ ", ".intercalate (display inner :: as.map Annotation.display) ++ "]"
  | .external name => name

/-- The texts of a list of types. -/
def displayItems : List DataType → List String
  | [] => []
  | item :: items => display item :: displayItems items

end

mutual

/-- The text of a type that names the kind of every part. -/
def outline : DataType → String
  | .unit => "Unit"
  | .int => "Int"
  | .float => "Float"
  | .str => "Str"
  | .bool => "Bool"
  | .progress => "Progress"
  | .list item => "List(" ++ outline item ++ ")"
  | .dict key value => "Dict(" ++ outline key ++ ", " ++ outline value ++ ")"
  | .tuple items => "Tuple([" ++ ", ".intercalate (outlineItems items) ++ "])"
  | .node c => "Node(" ++ c.outline ++ ")"
  | .pack name fields =>
    "Pack(PackType \x7b name: " ++ Text.quoted name ++ ", fields: [" ++
      ", ".intercalate (outlineFields fields) ++ "] \x7d)"
  | .annotated inner as =>
    "Annotated(" ++ outline inner ++ ", [" ++ ", ".intercalate (as.map Annotation.outline) ++ "])"
  | .external name => "Opaque(" ++ Text.quoted name ++ ")"

/-- The outlines of a list of types. -/
def outlineItems : List DataType → List String
  | [] => []
  | item :: items => outline item :: outlineItems items

/-- The outlines of a list of fields. -/
def outlineFields : List (String × DataType) → List String
  | [] => []
  | (name, t) :: fields =>
    ("(" ++ Text.quoted name ++ ", " ++ outline t ++ ")") :: outlineFields fields

end

end DataType

end Pipewright
