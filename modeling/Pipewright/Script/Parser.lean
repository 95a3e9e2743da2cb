import Pipewright.Script.Lexer
import Pipewright.Script.Program

/-! # Reading programs
The program of a text, if the text is one. Every function below takes fuel, of which each call
passes on less, and room, which is how many brackets may still be opened inside each other; a chain
of calls between two tokens is never longer than eight, so a wrapper can give fuel enough for any
text. -/

namespace Pipewright.Script

/-- How many brackets may be opened inside each other. -/
def maxNesting : Nat := 64

/-- Functions of the language itself whose names are reserved but may be called. -/
def callableWords : List String := ["type_of", "print", "debug", "eval", "is_def_var", "is_def_fn"]

/-- How tightly an operator binds its operands, from one up. -/
def Operator.level : Operator → Nat
  | .either => 1
  | .both => 2
  | .equal => 3
  | .differ => 3
  | .greater => 4
  | .plus => 5
  | .minus => 5

/-- The operator that signs mean between two operands. -/
def Operator.ofMark? : Mark → Option Operator
  | .either => some .either
  | .both => some .both
  | .equal => some .equal
  | .differ => some .differ
  | .greater => some .greater
  | .plus => some .plus
  | .minus => some .minus
  | _ => none

/-- The assignment that signs mean behind a place. -/
def Assignment.ofMark? : Mark → Option Assignment
  | .set => some .set
  | .add => some .add
  | .subtract => some .subtract
  | _ => none

/-- The literal of digits. A number that 64 bits do not hold becomes a floating-point number. -/
def Expr.ofDigits (n : Nat) : Expr :=
  if n < signedBound then .int (Int64.ofNat n) else .float (Decimal.nearestFloat false n 0)

/-- The literal of digits behind a minus sign. -/
def Expr.ofNegatedDigits (n : Nat) : Expr :=
  if n ≤ signedBound then .int (Int64.ofInt (-n)) else .float (Decimal.nearestFloat true n 0)

/-- The place that an expression stands for on the left of an assignment. -/
def Expr.place? : Expr → Option Place
  | .var name => some ⟨name, []⟩
  | .field target name => target.place?.map fun p => { p with path := p.path ++ [.field name] }
  | .index target key => target.place?.map fun p => { p with path := p.path ++ [.index key] }
  | _ => none

namespace Parser

/-- One token of signs. -/
def expect (mark : Mark) : List Token → Option (List Token)
  | .mark found :: ts => if found = mark then some ts else none
  | _ => none

/-- One word of the language's own. -/
def expectWord (word : String) : List Token → Option (List Token)
  | .word found :: ts => if found = word then some ts else none
  | _ => none

/-- A name that is not reserved. -/
def readName : List Token → Option (String × List Token)
  | .word name :: ts => if isReserved name then none else some (name, ts)
  | _ => none

/-- The name of a field or a function behind a point. The kind of a value may be asked for there. -/
def readMember : List Token → Option (String × List Token)
  | .word "type_of" :: .mark .openParen :: ts => some ("type_of", .mark .openParen :: ts)
  | ts => readName ts

/-- The key of an entry of a map: a name or a quoted text. -/
def readKey : List Token → Option (String × List Token)
  | .text text :: ts => some (text, ts)
  | ts => readName ts

mutual

/-- An expression. -/
def readExpr (fuel room : Nat) (ts : List Token) : Option (Expr × List Token) :=
  match fuel with
  | 0 => none
  | fuel + 1 => readLevel fuel room 0 ts

/-- An expression whose operators outside brackets bind more tightly than a level. -/
def readLevel (fuel room level : Nat) (ts : List Token) : Option (Expr × List Token) :=
  match fuel with
  | 0 => none
  | fuel + 1 =>
    match readOperand fuel room ts with
    | none => none
    | some (e, ts) => readOperators fuel room level e ts

/-- The operators behind a left operand. -/
def readOperators (fuel room level : Nat) (left : Expr) (ts : List Token) :
    Option (Expr × List Token) :=
  match fuel with
  | 0 => none
  | fuel + 1 =>
    match ts with
    | .mark mark :: rest =>
      match Operator.ofMark? mark with
      | none => some (left, ts)
      | some operator =>
        if operator.level ≤ level then some (left, ts)
        else
          -- operators of one level group to the left: the right operand takes tighter ones only
          match readLevel fuel room operator.level rest with
          | none => none
          | some (right, rest) =>
            readOperators fuel room level (.binary operator left right) rest
    | _ => some (left, ts)

/-- An operand with the operators in front of it. -/
def readOperand (fuel room : Nat) (ts : List Token) : Option (Expr × List Token) :=
  match fuel with
  | 0 => none
  | fuel + 1 =>
    match ts with
    | .mark .not :: ts => (readOperand fuel room ts).map fun (e, ts) => (.not e, ts)
    -- the sign belongs to the literal behind it, so that the least integer can be written
    | .mark .minus :: .digits n :: ts => readParts fuel room (.ofNegatedDigits n) ts
    | .mark .minus :: .decimal x :: ts => readParts fuel room (.float (-x)) ts
    | .mark .minus :: ts => (readOperand fuel room ts).map fun (e, ts) => (.negate e, ts)
    | ts =>
      match readPrimary fuel room ts with
      | none => none
      | some (e, ts) => readParts fuel room e ts

/-- An expression without operators outside brackets, up to its first part. -/
def readPrimary (fuel room : Nat) (ts : List Token) : Option (Expr × List Token) :=
  match fuel with
  | 0 => none
  | fuel + 1 =>
    match ts with
    | .digits n :: ts => some (.ofDigits n, ts)
    | .decimal x :: ts => some (.float x, ts)
    | .text text :: ts => some (.str text, ts)
    | .mark .openParen :: .mark .closeParen :: ts => some (.unit, ts)
    | .mark .openParen :: ts =>
      match room with
      | 0 => none
      | room + 1 => do
        let (e, ts) ← readExpr fuel room ts
        return (.paren e, ← expect .closeParen ts)
    | .mark .openBracket :: ts =>
      match room with
      | 0 => none
      | room + 1 =>
        (readItems fuel room .closeBracket ts).map fun (items, ts) => (.array .inline items, ts)
    | .mark .openMap :: ts =>
      match room with
      | 0 => none
      | room + 1 =>
        (readEntries fuel room [] ts).map fun (entries, ts) => (.object .inline entries, ts)
    | .word "true" :: ts => some (.bool true, ts)
    | .word "false" :: ts => some (.bool false, ts)
    | .word space :: .mark .path :: ts => do
      let (name, ts) ← readName ts
      if isReserved space then none
      else
        match ts with
        | .mark .openParen :: ts =>
          match room with
          | 0 => none
          | room + 1 =>
            (readItems fuel room .closeParen ts).map fun (items, ts) =>
              (.moduleCall space name items, ts)
        | ts => some (.constant space name, ts)
    | .word name :: .mark .openParen :: ts =>
      match room with
      | 0 => none
      | room + 1 =>
        if isReserved name && !callableWords.contains name then none
        else (readItems fuel room .closeParen ts).map fun (items, ts) => (.call name items, ts)
    | ts => (readName ts).map fun (name, ts) => (.var name, ts)

/-- The fields, items and calls behind an expression. -/
def readParts (fuel room : Nat) (target : Expr) (ts : List Token) : Option (Expr × List Token) :=
  match fuel with
  | 0 => none
  | fuel + 1 =>
    match ts with
    | .mark .dot :: ts =>
      match readMember ts with
      | none => none
      | some (name, .mark .openParen :: ts) =>
        match room with
        | 0 => none
        | inner + 1 =>
          match readItems fuel inner .closeParen ts with
          | none => none
          | some (items, ts) => readParts fuel room (.method target name items) ts
      | some (name, ts) => readParts fuel room (.field target name) ts
    | .mark .openBracket :: ts =>
      match room with
      | 0 => none
      | inner + 1 =>
        match readExpr fuel inner ts with
        | some (key, .mark .closeBracket :: ts) => readParts fuel room (.index target key) ts
        | _ => none
    | ts => some (target, ts)

/-- Expressions between commas up to a closing bracket; a comma may stand in front of it. -/
def readItems (fuel room : Nat) (close : Mark) (ts : List Token) :
    Option (List Expr × List Token) :=
  match fuel with
  | 0 => none
  | fuel + 1 =>
    match expect close ts with
    | some ts => some ([], ts)
    | none =>
      match readExpr fuel room ts with
      | none => none
      | some (e, .mark .comma :: ts) =>
        (readItems fuel room close ts).map fun (items, ts) => (e :: items, ts)
      | some (e, ts) => (expect close ts).map fun ts => ([e], ts)

/-- Entries of a map between commas up to its brace. No key may occur twice. -/
def readEntries (fuel room : Nat) (seen : List String) (ts : List Token) :
    Option (List (String × Expr) × List Token) :=
  match fuel with
  | 0 => none
  | fuel + 1 =>
    match ts with
    | .mark .closeBrace :: ts => some ([], ts)
    | ts => do
      let (key, ts) ← readKey ts
      if seen.contains key then none
      else
        let ts ← expect .colon ts
        match readExpr fuel room ts with
        | none => none
        | some (e, .mark .comma :: ts) =>
          (readEntries fuel room (key :: seen) ts).map fun (entries, ts) =>
            ((key, e) :: entries, ts)
        | some (e, ts) => (expect .closeBrace ts).map fun ts => ([(key, e)], ts)

end

/-- An expression, if none of the tokens that end a statement comes first. -/
def readOptional (fuel room : Nat) (ts : List Token) : Option (Option Expr × List Token) :=
  match ts with
  | [] => some (none, [])
  | .mark .semicolon :: _ => some (none, ts)
  | .mark .closeBrace :: _ => some (none, ts)
  | ts => (readExpr fuel room ts).map fun (e, ts) => (some e, ts)

/-- Whether a statement ends with a block and so needs no semicolon behind it. -/
def endsWithBlock : Stmt → Bool
  | .branch _ _ => true
  | .repeatWhile _ _ => true
  | .repeatForever _ => true
  | .forEach _ _ _ => true
  | .attempt _ _ _ => true
  | _ => false

/-- A statement that holds no block. An expression is taken for the value of its block. -/
def readSimple (fuel room : Nat) (ts : List Token) : Option (Stmt × List Token) :=
  match ts with
  | .word "let" :: ts =>
    match readName ts with
    | some (name, .mark .set :: ts) =>
      (readExpr fuel room ts).map fun (e, ts) => (.declare name (some e), ts)
    | some (name, ts) => some (.declare name none, ts)
    | none => none
  | .word "break" :: ts => some (.leaveLoop, ts)
  | .word "continue" :: ts => some (.nextRound, ts)
  | .word "return" :: ts =>
    (readOptional fuel room ts).map fun (e, ts) => (.leaveFunction e, ts)
  | .word "throw" :: ts =>
    (readOptional fuel room ts).map fun (e, ts) => (.raise (e.getD .unit), ts)
  | .word "import" :: .text path :: .word "as" :: ts =>
    (readName ts).map fun (name, ts) => (.useModule path name, ts)
  | ts =>
    match readExpr fuel room ts with
    | none => none
    | some (e, .mark mark :: rest) =>
      match Assignment.ofMark? mark with
      | none => some (.value e, .mark mark :: rest)
      | some assignment => do
        let place ← e.place?
        let (value, rest) ← readExpr fuel room rest
        return (.assign place assignment value, rest)
    | some (e, rest) => some (.value e, rest)

/-- The variable in parentheses behind `catch`, if there is one. -/
def readCaught (ts : List Token) : Option (Option String × List Token) :=
  match ts with
  | .mark .openParen :: ts => do
    let (name, ts) ← readName ts
    return (some name, ← expect .closeParen ts)
  | ts => some (none, ts)

/-- The statement that a semicolon follows. -/
def withSemicolon : Stmt → Stmt
  | .value e => .run e
  | stmt => stmt

mutual

/-- A block in braces. -/
def readBlock (fuel room : Nat) (ts : List Token) : Option (List Stmt × List Token) :=
  match fuel with
  | 0 => none
  | fuel + 1 =>
    match ts with
    | .mark .openBrace :: ts =>
      match room with
      | 0 => none
      | room + 1 => readStmts fuel room ts
    | _ => none

/-- Statements up to the closing brace. -/
def readStmts (fuel room : Nat) (ts : List Token) : Option (List Stmt × List Token) :=
  match fuel with
  | 0 => none
  | fuel + 1 =>
    match ts with
    | .mark .closeBrace :: ts => some ([], ts)
    | .mark .semicolon :: ts => readStmts fuel room ts
    | ts =>
      match readStmt fuel room ts with
      | none => none
      | some (stmt, .mark .semicolon :: ts) =>
        (readStmts fuel room ts).map fun (stmts, ts) => (withSemicolon stmt :: stmts, ts)
      -- the last statement of a block needs no semicolon
      | some (stmt, .mark .closeBrace :: ts) => some ([stmt], ts)
      | some (stmt, ts) =>
        if endsWithBlock stmt then
          (readStmts fuel room ts).map fun (stmts, ts) => (stmt :: stmts, ts)
        else none

/-- A statement, without the semicolon behind it. -/
def readStmt (fuel room : Nat) (ts : List Token) : Option (Stmt × List Token) :=
  match fuel with
  | 0 => none
  | fuel + 1 =>
    match ts with
    | .word "if" :: ts =>
      (readBranches fuel room ts).map fun ((branches, otherwise), ts) =>
        (.branch branches otherwise, ts)
    | .word "while" :: ts => do
      let (condition, ts) ← readExpr fuel room ts
      let (body, ts) ← readBlock fuel room ts
      return (.repeatWhile condition body, ts)
    | .word "loop" :: ts => (readBlock fuel room ts).map fun (body, ts) => (.repeatForever body, ts)
    | .word "for" :: ts => do
      let (name, ts) ← readName ts
      let ts ← expectWord "in" ts
      let (items, ts) ← readExpr fuel room ts
      let (body, ts) ← readBlock fuel room ts
      return (.forEach name items body, ts)
    | .word "try" :: ts => do
      let (body, ts) ← readBlock fuel room ts
      let ts ← expectWord "catch" ts
      let (name, ts) ← readCaught ts
      let (handler, ts) ← readBlock fuel room ts
      return (.attempt body name handler, ts)
    | ts => readSimple fuel room ts

/-- A condition and its block, with what stands behind `else`. -/
def readBranches (fuel room : Nat) (ts : List Token) :
    Option ((List (Expr × List Stmt) × List Stmt) × List Token) :=
  match fuel with
  | 0 => none
  | fuel + 1 => do
    let (condition, ts) ← readExpr fuel room ts
    let (body, ts) ← readBlock fuel room ts
    match ts with
    | .word "else" :: .word "if" :: ts =>
      (readBranches fuel room ts).map fun ((branches, otherwise), ts) =>
        (((condition, body) :: branches, otherwise), ts)
    | .word "else" :: ts =>
      (readBlock fuel room ts).map fun (otherwise, ts) => (([(condition, body)], otherwise), ts)
    | ts => some (([(condition, body)], []), ts)

end

/-- The names of parameters between commas up to the parenthesis. No name may occur twice. -/
def readParameters (seen : List String) : List Token → Option (List String × List Token)
  | .mark .closeParen :: ts => some ([], ts)
  | .word name :: .mark .comma :: ts =>
    if isReserved name || seen.contains name then none
    else (readParameters (name :: seen) ts).map fun (names, ts) => (name :: names, ts)
  | .word name :: .mark .closeParen :: ts =>
    if isReserved name || seen.contains name then none else some ([name], ts)
  | _ => none

/-- A function, behind the word that starts it. -/
def readFunction (fuel room : Nat) (ts : List Token) : Option (Function × List Token) := do
  let (name, ts) ← readName ts
  let ts ← expect .openParen ts
  let (parameters, ts) ← readParameters [] ts
  let (body, ts) ← readBlock fuel room ts
  return (⟨name, parameters, body⟩, ts)

/-- Functions and statements to the end of the tokens. No two functions of one name may take the
same number of arguments. -/
def readProgram (fuel : Nat) (program : Program) (ts : List Token) : Option Program :=
  match fuel with
  | 0 => none
  | fuel + 1 =>
    match ts with
    | [] => some program
    | .mark .semicolon :: ts => readProgram fuel program ts
    | .word "fn" :: ts => do
      let (f, ts) ← readFunction fuel maxNesting ts
      if program.hasFunction f.name f.arity then none
      else readProgram fuel { program with functions := program.functions ++ [f] } ts
    | ts =>
      match readStmt fuel maxNesting ts with
      | none => none
      | some (stmt, .mark .semicolon :: ts) =>
        readProgram fuel { program with body := program.body ++ [withSemicolon stmt] } ts
      | some (stmt, ts) =>
        if endsWithBlock stmt || ts.isEmpty then
          readProgram fuel { program with body := program.body ++ [stmt] } ts
        else none

end Parser

/-- The program of a list of tokens. -/
def Program.ofTokens? (ts : List Token) : Option Program :=
  (Parser.readProgram (8 * ts.length + 8) .empty ts).filter Program.keepsToLoops

/-- The program of a text. -/
def Program.ofText? (text : String) : Option Program :=
  (Lexer.tokens? text.toList).bind ofTokens?

end Pipewright.Script
