import Pipewright.Graph.Basic
import Pipewright.Unit.Spelling

/-! # Pieces of units
A unit is put together from pieces. A piece is a list of functions under headings, with the imports
that they need. -/

namespace Pipewright

open Script (Function importLine)

/-! ## Import lines
The lines that make modules known to a program: one line for each module, in ascending order. The
module of types is always known, so a cleaned block has no line for it. -/

/-- The import lines of some modules, in ascending order of their names and each once. -/
def importLines (modules : List HostModule) : String :=
  Text.joinLines ((Keyed.distinct (modules.map HostModule.name)).map importLine)

/-- The import lines that the code of a type needs. -/
def DataType.imports (t : DataType) : String := importLines t.modules

/-- The import lines that the code of a literal needs. -/
def Value.imports (v : Value) : String := importLines v.modules

/-- The import lines that the code of the types of some nodes needs. -/
def PipelineGraph.importsOf (g : PipelineGraph) (keys : List SlotKey) : String :=
  importLines ((keys.filterMap g.datatype?).flatMap DataType.modules)

/-- The lines of a block of imports without blanks around them. -/
def trimmedLines (text : String) : List String :=
  (Text.lines text.toList).map fun line => String.ofList (Text.trim line)

/-- Whether a line is kept in a cleaned block. -/
def isWantedImport (line : String) : Bool :=
  line != "" && line != importLine HostModule.types.name

/-- A block of imports with each line once, in ascending order, without blank lines and without the
line of the module that is always known. -/
def cleanImports (text : String) : String :=
  Text.joinLines (Keyed.distinct ((trimmedLines text).filter isWantedImport))

/-! ## Pieces -/

/-- What a piece consists of. -/
inductive Item where
  /-- A heading. -/
  | heading (title : String)
  /-- A function. -/
  | function (f : Function)
  /-- A function under a remark. -/
  | remarked (remark : String) (f : Function)

namespace Item

/-- The text of an item. -/
def text (tab : String) : Item → String
  | .heading title => "//\n// " ++ title ++ "\n//"
  | .function f => f.text tab
  | .remarked remark f => "// " ++ remark ++ "\n" ++ f.text tab

/-- The function of an item. -/
def function? : Item → Option Function
  | .heading _ => none
  | .function f => some f
  | .remarked _ f => some f

end Item

/-- A piece of a unit. -/
structure Piece where
  /-- The block of imports that it needs. -/
  imports : String
  /-- What it consists of. -/
  items : List Item

namespace Piece

/-- The text of a piece without its last line feed, one empty line between each two items. -/
def body (p : Piece) (tab : String) : String := "\n\n".intercalate (p.items.map (Item.text tab))

/-- The text of a piece. -/
def code (p : Piece) (tab : String) : String := p.body tab ++ "\n"

/-- The functions of a piece. -/
def functions (p : Piece) : List Function := p.items.filterMap Item.function?

end Piece

end Pipewright
