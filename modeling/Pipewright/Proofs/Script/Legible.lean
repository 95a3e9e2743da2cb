import Pipewright.Proofs.Script.Lexing
import Pipewright.Script.Parser
import Pipewright.Script.Printer

/-! # The tokens of written expressions
What the text of an expression is cut into: the tokens of its parts in their order, whatever its
layout. This needs names that are words, and targets of fields and calls that do not run together
with the point behind them. -/

namespace Pipewright.Script

/-! ## Runs of lines -/

/-- The lines of a run are cut into tokens one after another; what follows the last of them is of
some kind. -/
inductive LexesRun (p : Char → Bool) : List String → List Token → Prop where
  /-- The last line. -/
  | last {line : String} {ts : List Token} (h : Lexes p line ts) : LexesRun p [line] ts
  /-- A line with others behind it. -/
  | more {line : String} {lines : List String} {ts ts' : List Token} (h : Lexes endsLine line ts)
    (rest : LexesRun p lines ts') : LexesRun p (line :: lines) (ts ++ ts')

/-- The first line of a run starts with a character of some kind. -/
def LeadsRun (p : Char → Bool) (lines : List String) : Prop :=
  ∃ line rest, lines = line :: rest ∧ Leads p line

variable {p q : Char → Bool} {s s' tab : String} {a b : List String} {ts ts' : List Token}

/-- A text in front of which another one stands starts as that does. -/
theorem Leads.append (h : Leads p s) (s' : String) : Leads p (s ++ s') := by
  obtain ⟨c, cs, e, ok⟩ := h.exists_cons
  exact .of_cons (by rw [String.toList_append, e, List.cons_append]) ok

/-- A kind of characters that a wider kind holds. -/
theorem Leads.mono (h : Leads p s) (sub : ∀ c, p c = true → q c = true) : Leads q s := by
  obtain ⟨c, cs, e, ok⟩ := h.exists_cons
  exact .of_cons e (sub c ok)

/-- A run glued behind another one starts as that does. -/
theorem LeadsRun.glue (h : LeadsRun p a) (b : List String) : LeadsRun p (glue a b) := by
  obtain ⟨line, rest, rfl, leads⟩ := h
  cases rest with
  | nil =>
    cases b with
    | nil => exact ⟨line, [], rfl, leads⟩
    | cons next more => exact ⟨line ++ next, more, rfl, leads.append next⟩
  | cons line' rest => exact ⟨line, _, rfl, leads⟩

/-- A kind of characters that a wider kind holds. -/
theorem LeadsRun.mono (h : LeadsRun p a) (sub : ∀ c, p c = true → q c = true) : LeadsRun q a := by
  obtain ⟨line, rest, rfl, leads⟩ := h
  exact ⟨line, rest, rfl, leads.mono sub⟩

/-- Nothing is glued behind a run. -/
@[simp] theorem glue_nil (a : List String) : glue a [] = a := by
  induction a with
  | nil => rfl
  | cons line rest ih =>
    cases rest with
    | nil => rfl
    | cons line' rest =>
      show line :: glue (line' :: rest) [] = line :: line' :: rest
      rw [ih]

namespace LexesRun

/-- What may be followed by more may be followed by less. -/
theorem mono (h : LexesRun p a ts) (sub : ∀ c, q c = true → p c = true) : LexesRun q a ts := by
  induction h with
  | last h => exact .last (h.mono sub)
  | more h _ ih => exact .more h ih

/-- One run glued behind another that may be followed by its first character. -/
theorem glue (h : LexesRun p a ts) (h' : LexesRun q b ts') (leads : LeadsRun p b) :
    LexesRun q (glue a b) (ts ++ ts') := by
  induction h with
  | last h =>
    obtain ⟨next, more, rfl, leads⟩ := leads
    cases h' with
    | last h' => exact .last (h.append h' leads)
    | more h' rest =>
      rw [← List.append_assoc]
      exact .more (h.append h' leads) rest
  | @more line lines ts₁ ts₂ h rest ih =>
    rw [List.append_assoc]
    cases rest with
    | last => exact .more h ih
    | more => exact .more h ih

/-- A run below another whose last line ends. -/
theorem append (h : LexesRun endsLine a ts) (h' : LexesRun q b ts') :
    LexesRun q (a ++ b) (ts ++ ts') := by
  induction h with
  | last h => exact .more h h'
  | more h _ ih =>
    rw [List.append_assoc]
    exact .more h ih

/-- Lines behind a tab have the same tokens. -/
theorem indent (blank : Text.isBlank tab.toList = true) (h : LexesRun p a ts) :
    LexesRun p (a.map (tab ++ ·)) ts := by
  induction h with
  | last h => exact .last ((Lexes.blank blank).append_any h)
  | more h _ ih => exact .more ((Lexes.blank blank).append_any h) ih

/-- The text of a run has the tokens of its lines. -/
theorem joinLines (h : LexesRun p a ts) : Lexes p (Text.joinLines a) ts := by
  induction h with
  | last h =>
    rw [Text.joinLines, String.intercalate_singleton]
    exact h
  | @more line lines ts₁ ts₂ h rest ih =>
    have some' : lines ≠ [] := by
      cases rest <;> simp
    rw [Text.joinLines, String.intercalate_cons_of_ne_nil some']
    have broken : Lexes anyChar (line ++ "\n") ts₁ := by
      have := h.append (Lexes.blank (s := "\n") (by decide)) rfl
      rwa [List.append_nil] at this
    exact broken.append_any ih

end LexesRun

/-! ## Tokens of expressions -/

/-- Tokens with commas between each two runs of them. -/
def between : List (List Token) → List Token
  | [] => []
  | [ts] => ts
  | ts :: rest => ts ++ .mark .comma :: between rest

/-- The tokens of a whole number. -/
def intTokens (n : Int) : List Token :=
  if n < 0 then [.mark .minus, .digits n.natAbs] else [.digits n.natAbs]

/-- The tokens of a finite floating-point number. -/
def floatTokens (x : Float) : List Token :=
  if Decimal.isNegative x then [.mark .minus, .decimal (-x)] else [.decimal x]

/-- The token of the key of an entry. -/
def keyToken (name : String) : Token := if isIdentifier name then .word name else .text name

/-- The signs of an operator. -/
def Operator.mark : Operator → Mark
  | .equal => .equal
  | .differ => .differ
  | .greater => .greater
  | .plus => .plus
  | .minus => .minus
  | .both => .both
  | .either => .either

mutual

/-- The tokens of an expression. -/
def Expr.tokens : Expr → List Token
  | .unit => [.mark .openParen, .mark .closeParen]
  | .bool b => [.word (if b then "true" else "false")]
  | .int n => intTokens n.toInt
  | .float x => floatTokens x
  | .str text => [.text text]
  | .var name => [.word name]
  | .constant space name => [.word space, .mark .path, .word name]
  | .array _ items =>
    .mark .openBracket :: (between (Expr.tokensOfItems items) ++ [.mark .closeBracket])
  | .object _ entries =>
    .mark .openMap :: (between (Expr.tokensOfEntries entries) ++ [.mark .closeBrace])
  | .call function arguments =>
    .word function :: .mark .openParen ::
      (between (Expr.tokensOfItems arguments) ++ [.mark .closeParen])
  | .moduleCall space function arguments =>
    .word space :: .mark .path :: .word function :: .mark .openParen ::
      (between (Expr.tokensOfItems arguments) ++ [.mark .closeParen])
  | .method receiver function arguments =>
    Expr.tokens receiver ++ .mark .dot :: .word function :: .mark .openParen ::
      (between (Expr.tokensOfItems arguments) ++ [.mark .closeParen])
  | .field target name => Expr.tokens target ++ [.mark .dot, .word name]
  | .index target key =>
    Expr.tokens target ++ .mark .openBracket :: (Expr.tokens key ++ [.mark .closeBracket])
  | .not operand => .mark .not :: Expr.tokens operand
  | .negate operand => .mark .minus :: Expr.tokens operand
  | .binary operator left right =>
    Expr.tokens left ++ .mark operator.mark :: Expr.tokens right
  | .paren inner => .mark .openParen :: (Expr.tokens inner ++ [.mark .closeParen])

/-- The tokens of each of some expressions. -/
def Expr.tokensOfItems : List Expr → List (List Token)
  | [] => []
  | item :: items => Expr.tokens item :: Expr.tokensOfItems items

/-- The tokens of each of some entries. -/
def Expr.tokensOfEntries : List (String × Expr) → List (List Token)
  | [] => []
  | (key, e) :: entries =>
    (keyToken key :: .mark .colon :: Expr.tokens e) :: Expr.tokensOfEntries entries

end

/-! ## Legible expressions -/

/-- The words that start a statement, a branch or a function. -/
def statementWords : List String :=
  ["let", "break", "continue", "return", "throw", "import", "if", "else", "while", "loop", "for",
    "try", "fn"]

/-- Whether a text is a word with which an expression can start, and that stands for no truth
value. -/
def isNameWord (name : String) : Bool :=
  isPlainWord name.toList && name != "true" && name != "false" && !statementWords.contains name

/-- How tightly what is outermost in an expression binds; what is no operator binds most tightly. -/
def Expr.level : Expr → Nat
  | .binary operator _ _ => operator.level
  | _ => 6

/-- Whether fields and calls can stand behind an expression. -/
def Expr.isTarget : Expr → Bool
  | .var _ => true
  | .call _ _ => true
  | .moduleCall _ _ _ => true
  | .method _ _ _ => true
  | .field _ _ => true
  | .index _ _ => true
  | _ => false

mutual

/-- Whether an expression reads as it is written: names are words, targets can be followed by fields
and calls, and operators group as they are written. -/
def Expr.isLegible : Expr → Bool
  | .float x => !x.isNaN && !x.isInf
  | .var name => isNameWord name
  | .constant space name => isNameWord space && isPlainWord name.toList
  | .array _ items => Expr.areLegible items
  | .object _ entries => Expr.areLegibleEntries entries
  | .call function arguments => isNameWord function && Expr.areLegible arguments
  | .moduleCall space function arguments =>
    isNameWord space && isPlainWord function.toList && Expr.areLegible arguments
  | .method receiver function arguments =>
    receiver.isTarget && Expr.isLegible receiver && isPlainWord function.toList &&
      Expr.areLegible arguments
  | .field target name => target.isTarget && Expr.isLegible target && isPlainWord name.toList
  | .index target key => target.isTarget && Expr.isLegible target && Expr.isLegible key
  | .not operand => decide (6 ≤ operand.level) && Expr.isLegible operand
  | .negate _ => false
  | .binary operator left right =>
    decide (operator.level ≤ left.level) && decide (operator.level < right.level) &&
      Expr.isLegible left && Expr.isLegible right
  | .paren inner => Expr.isLegible inner
  | _ => true

/-- Whether all of some expressions read as they are written. -/
def Expr.areLegible : List Expr → Bool
  | [] => true
  | item :: items => Expr.isLegible item && Expr.areLegible items

/-- Whether the values of all of some entries read as they are written. -/
def Expr.areLegibleEntries : List (String × Expr) → Bool
  | [] => true
  | (_, e) :: entries => Expr.isLegible e && Expr.areLegibleEntries entries

end

end Pipewright.Script
