import Pipewright.Decimal.Layout
import Pipewright.Script.Program
import Pipewright.Script.Quoted
import Pipewright.Text.Basic

/-! # Writing programs
The text of expressions, statements and functions. Blocks stand between braces, one statement a
line, each behind one more tab than what surrounds it. -/

namespace Pipewright.Script

/-! ## Runs of lines -/

/-- Put one run of lines behind another, without a break between them. -/
def glue : List String → List String → List String
  | [], more => more
  | [line], [] => [line]
  | [line], next :: more => (line ++ next) :: more
  | line :: lines, more => line :: glue lines more

/-- Put runs of lines behind each other, without breaks between them. -/
def glueAll (runs : List (List String)) : List String := runs.foldr glue []

/-- Put a text between each two runs of lines. -/
def separate (separator : String) : List (List String) → List (List String)
  | [] => []
  | [run] => [run]
  | run :: runs => run :: [separator] :: separate separator runs

/-- Runs of lines, each on lines of its own behind a tab, with a comma behind each but the last. -/
def spreadOut (tab : String) : List (List String) → List String
  | [] => []
  | [run] => run.map (tab ++ ·)
  | run :: runs => (glue run [","]).map (tab ++ ·) ++ spreadOut tab runs

/-! ## Expressions -/

/-- The text of a finite floating-point number. A point is written even before an exponent. -/
def floatText (x : Float) : String :=
  let (digits, power) := (Decimal.shown x).toList.span (· ≠ 'e')
  String.ofList
    (if power.isEmpty || digits.contains '.' then digits ++ power
      else digits ++ ['.', '0'] ++ power)

/-- The signs of an operator. -/
def Operator.text : Operator → String
  | .equal => "=="
  | .differ => "!="
  | .greater => ">"
  | .plus => "+"
  | .minus => "-"
  | .both => "&&"
  | .either => "||"

/-- Items between brackets. -/
def bracketed (tab opening closing : String) (layout : Layout) (items : List (List String)) :
    List String :=
  match layout with
  | .inline => glueAll ([opening] :: separate ", " items ++ [[closing]])
  | .spread => opening :: spreadOut tab items ++ [closing]

mutual

/-- The lines of an expression. -/
def Expr.lines (tab : String) : Expr → List String
  | .unit => ["()"]
  | .bool b => [if b then "true" else "false"]
  | .int n => [toString n.toInt]
  | .float x => [floatText x]
  | .str text => [quoted text]
  | .var name => [name]
  | .constant space name => [space ++ "::" ++ name]
  | .array layout items => bracketed tab "[" "]" layout (Expr.linesOfItems tab items)
  | .object layout entries =>
    let items := Expr.linesOfEntries tab entries
    match layout with
    | .inline =>
      if items.isEmpty then ["#\x7b\x7d"]
      else bracketed tab "#\x7b " " \x7d" .inline items
    | .spread => bracketed tab "#\x7b" "\x7d" .spread items
  | .call function arguments =>
    bracketed tab (function ++ "(") ")" .inline (Expr.linesOfItems tab arguments)
  | .moduleCall space function arguments =>
    bracketed tab (space ++ "::" ++ function ++ "(") ")" .inline
      (Expr.linesOfItems tab arguments)
  | .method receiver function arguments =>
    glue (Expr.lines tab receiver)
      (bracketed tab ("." ++ function ++ "(") ")" .inline (Expr.linesOfItems tab arguments))
  | .field target name => glue (Expr.lines tab target) ["." ++ name]
  | .index target key =>
    glueAll [Expr.lines tab target, ["["], Expr.lines tab key, ["]"]]
  | .not operand => glue ["!"] (Expr.lines tab operand)
  | .negate operand => glue ["-"] (Expr.lines tab operand)
  | .binary operator left right =>
    glueAll [Expr.lines tab left, [" " ++ operator.text ++ " "], Expr.lines tab right]
  | .paren inner => glueAll [["("], Expr.lines tab inner, [")"]]

/-- The lines of each of some expressions. -/
def Expr.linesOfItems (tab : String) : List Expr → List (List String)
  | [] => []
  | item :: items => Expr.lines tab item :: Expr.linesOfItems tab items

/-- The lines of each of some entries. -/
def Expr.linesOfEntries (tab : String) : List (String × Expr) → List (List String)
  | [] => []
  | (key, e) :: entries =>
    glue [keyText key ++ ": "] (Expr.lines tab e) :: Expr.linesOfEntries tab entries

end

/-- The text of an expression. -/
def Expr.text (tab : String) (e : Expr) : String := Text.joinLines (e.lines tab)

/-- The expression that reads what a place holds. -/
def Place.expr (p : Place) : Expr :=
  p.path.foldl (fun target step =>
    match step with
    | .field name => .field target name
    | .index key => .index target key) (.var p.root)

/-- The signs of an assignment. -/
def Assignment.text : Assignment → String
  | .set => "="
  | .add => "+="
  | .subtract => "-="

/-! ## Statements -/

/-- A line of a block. -/
inductive Line where
  /-- A line of a statement. -/
  | code (text : String)
  /-- A remark, whose text may hold line breaks. -/
  | remark (text : String)
deriving DecidableEq, Repr

/-- The text of a line. -/
def Line.text : Line → String
  | .code text => text
  | .remark text => text

/-- Put a tab before a line, unless it is blank. A remark is cut where it holds line breaks. -/
def Line.indent (tab : String) : Line → List Line
  | .code text => [.code (if text.isEmpty then text else tab ++ text)]
  | .remark text =>
    (Text.lines (text.toList ++ ['\n'])).map fun line => .remark (Text.indentLine tab line)

/-- A statement on lines of its own: an expression between two texts. -/
def codeLines (tab before : String) (e : Expr) (after : String) : List Line :=
  (glueAll [[before], e.lines tab, [after]]).map .code

/-- A line before a block, and the block. -/
def blockLines (tab head : String) (body : List Line) : List Line :=
  .code head :: body.flatMap (Line.indent tab)

mutual

/-- The lines of a statement. -/
def Stmt.lines (tab : String) : Stmt → List Line
  | .declare name none => [.code ("let " ++ name ++ ";")]
  | .declare name (some e) => codeLines tab ("let " ++ name ++ " = ") e ";"
  | .assign place assignment e =>
    (glueAll [place.expr.lines tab, [" " ++ assignment.text ++ " "], e.lines tab, [";"]]).map .code
  | .branch branches otherwise =>
    let shut := if otherwise.isEmpty then []
      else blockLines tab "\x7d else \x7b" (Stmt.linesOfBlock tab otherwise)
    Stmt.linesOfBranches tab "" branches ++ shut ++ [.code "\x7d"]
  | .repeatWhile condition body =>
    blockLines tab ("while " ++ condition.text tab ++ " \x7b") (Stmt.linesOfBlock tab body) ++
      [.code "\x7d"]
  | .repeatForever body =>
    blockLines tab "loop \x7b" (Stmt.linesOfBlock tab body) ++ [.code "\x7d"]
  | .forEach name items body =>
    blockLines tab ("for " ++ name ++ " in " ++ items.text tab ++ " \x7b")
      (Stmt.linesOfBlock tab body) ++ [.code "\x7d"]
  | .leaveLoop => [.code "break;"]
  | .nextRound => [.code "continue;"]
  | .leaveFunction none => [.code "return;"]
  | .leaveFunction (some e) => codeLines tab "return " e ";"
  | .raise e => codeLines tab "throw " e ";"
  | .attempt body name handler =>
    let caught := name.elim "" fun name => "(" ++ name ++ ") "
    blockLines tab "try \x7b" (Stmt.linesOfBlock tab body) ++
      blockLines tab ("\x7d catch " ++ caught ++ "\x7b") (Stmt.linesOfBlock tab handler) ++
      [.code "\x7d"]
  | .useModule path name => [.code ("import " ++ quoted path ++ " as " ++ name ++ ";")]
  | .run e => codeLines tab "" e ";"
  | .value e => codeLines tab "" e ""
  | .note text => [.remark ("// " ++ text)]
  | .gap => [.code ""]

/-- The lines of a block's statements. -/
def Stmt.linesOfBlock (tab : String) : List Stmt → List Line
  | [] => []
  | stmt :: stmts => Stmt.lines tab stmt ++ Stmt.linesOfBlock tab stmts

/-- The lines of conditions and their blocks, without the last brace. -/
def Stmt.linesOfBranches (tab shut : String) : List (Expr × List Stmt) → List Line
  | [] => []
  | (condition, body) :: branches =>
    blockLines tab (shut ++ "if " ++ condition.text tab ++ " \x7b") (Stmt.linesOfBlock tab body) ++
      Stmt.linesOfBranches tab "\x7d else " branches

end

/-! ## Functions -/

/-- The text of a function. -/
def Function.text (tab : String) (f : Function) : String :=
  let head := "fn " ++ f.name ++ "(" ++ ", ".intercalate f.parameters ++ ") \x7b"
  let body := blockLines tab head (Stmt.linesOfBlock tab f.body) ++ [.code "\x7d"]
  Text.joinLines (body.map Line.text)

/-- The texts of functions, with an empty line between each two. -/
def functionsText (tab : String) (functions : List Function) : String :=
  "\n\n".intercalate (functions.map (Function.text tab))

/-- The line that makes a module known under its own name. -/
def importLine (space : String) : String := "import " ++ quoted space ++ " as " ++ space ++ ";"

end Pipewright.Script
