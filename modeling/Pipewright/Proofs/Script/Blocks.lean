import Pipewright.Proofs.Script.Layout
import Pipewright.Proofs.Script.Spelled
import Pipewright.Proofs.Text.Lines

/-! # The text of statements and functions
The lines of legible statements and functions are cut into their tokens. Remarks and empty lines
have none. -/

namespace Pipewright.Script

open Lexer

variable {p q : Char → Bool} {s tab : String} {ts ts' : List Token} {lines lines' : List Line}

-- texts are told apart by their tokens alone, never by how they are cut
attribute [local irreducible] Lexes

/-! ## Lines of blocks -/

/-- A text that is a remark on one line. -/
structure IsRemark (s : String) : Prop where
  /-- It is one line. -/
  line : ∀ c ∈ s.toList, c ≠ '\n' ∧ c ≠ '\r'
  /-- It is not blank. -/
  shown : Text.isBlank s.toList = false
  /-- It has no tokens. -/
  lexes : Lexes endsLine s []

/-- Two slashes and the rest of a line are a remark. -/
theorem isRemark_of_line (h : ∀ c ∈ s.toList, c ≠ '\n' ∧ c ≠ '\r') : IsRemark ("// " ++ s) := by
  have spaced : ∀ c ∈ (" " ++ s).toList, c ≠ '\n' ∧ c ≠ '\r' := by
    intro c m
    rw [String.toList_append, List.mem_append] at m
    rcases m with m | m
    · have blank : c = ' ' := by simpa using m
      subst blank
      decide
    · exact h c m
  have text : "// " ++ s = "//" ++ (" " ++ s) := by
    rw [← String.append_assoc]
    rfl
  rw [text]
  refine ⟨fun c m => ?_, ?_, .remark spaced⟩
  · rw [String.toList_append, List.mem_append] at m
    rcases m with m | m
    · have slash : c = '/' := by simpa using m
      subst slash
      decide
    · exact spaced c m
  · rw [String.toList_append]
    rfl

/-- The lines of a block are cut into tokens one after another. -/
inductive LexesLines : List Line → List Token → Prop where
  /-- There are no lines. -/
  | nil : LexesLines [] []
  /-- A line of a statement. -/
  | code {text : String} {lines : List Line} {ts ts' : List Token} (h : Lexes endsLine text ts)
    (rest : LexesLines lines ts') : LexesLines (.code text :: lines) (ts ++ ts')
  /-- A remark. -/
  | remark {text : String} {lines : List Line} {ts : List Token} (h : IsRemark text)
    (rest : LexesLines lines ts) : LexesLines (.remark text :: lines) ts

namespace LexesLines

/-- A line of a statement. -/
theorem single (h : Lexes endsLine s ts) : LexesLines [.code s] ts := by
  have all := LexesLines.code h .nil
  rwa [List.append_nil] at all

/-- Lines below others. -/
theorem append (h : LexesLines lines ts) (h' : LexesLines lines' ts') :
    LexesLines (lines ++ lines') (ts ++ ts') := by
  induction h with
  | nil => exact h'
  | code h _ ih =>
    rw [List.append_assoc]
    exact .code h ih
  | remark h _ ih => exact .remark h ih

/-- The lines of a run. -/
theorem of_run {run : List String} (h : LexesRun endsLine run ts) :
    LexesLines (run.map .code) ts := by
  induction h with
  | last h => exact single h
  | more h _ ih => exact .code h ih

/-- Lines behind a tab have the same tokens. -/
theorem indent (blank : Text.isBlank tab.toList = true)
    (line : ∀ c ∈ tab.toList, c ≠ '\n' ∧ c ≠ '\r') (h : LexesLines lines ts) :
    LexesLines (lines.flatMap (Line.indent tab)) ts := by
  induction h with
  | nil => exact .nil
  | @code text lines ts ts' h _ ih =>
    rw [List.flatMap_cons]
    refine .code ?_ ih
    by_cases none : text.isEmpty = true
    · rw [if_pos none]
      exact h
    · rw [if_neg none]
      exact (Lexes.blank blank).append_any h
  | @remark text lines ts h _ ih =>
    have indented : Line.indent tab (.remark text) = [.remark (tab ++ text)] := by
      rw [Line.indent, Text.lines_append h.line [], Text.lines_nil, List.map_singleton, Text.indentLine,
        if_neg (by simp [h.shown]), String.ofList_toList]
    rw [List.flatMap_cons, indented]
    refine .remark ⟨?_, ?_, (Lexes.blank blank).append_any h.lexes⟩ ih
    · intro c m
      rw [String.toList_append, List.mem_append] at m
      exact m.elim (line c) (h.line c)
    · have shown := h.shown
      unfold Text.isBlank at shown ⊢
      rw [String.toList_append, List.all_append, shown, Bool.and_false]

/-- The text of lines has their tokens. -/
theorem joinLines (h : LexesLines lines ts) (some' : lines ≠ []) :
    Lexes endsLine (Text.joinLines (lines.map Line.text)) ts := by
  suffices LexesRun endsLine (lines.map Line.text) ts from this.joinLines
  induction h with
  | nil => exact absurd rfl some'
  | @code text lines ts ts' h rest ih =>
    cases lines with
    | nil =>
      cases rest
      rw [List.append_nil]
      exact .last h
    | cons line lines => exact .more h (ih (by simp))
  | @remark text lines ts h rest ih =>
    cases lines with
    | nil =>
      cases rest
      exact .last h.lexes
    | cons line lines =>
      have all := LexesRun.more h.lexes (ih (by simp))
      rwa [List.nil_append] at all

end LexesLines

/-! ## Tokens of statements -/

/-- The signs of an assignment. -/
def Assignment.mark : Assignment → Mark
  | .set => .set
  | .add => .add
  | .subtract => .subtract

mutual

/-- The tokens of a statement. -/
def Stmt.tokens : Stmt → List Token
  | .declare name none => [.word "let", .word name, .mark .semicolon]
  | .declare name (some e) =>
    .word "let" :: .word name :: .mark .set :: (e.tokens ++ [.mark .semicolon])
  | .assign place assignment e =>
    place.expr.tokens ++ .mark assignment.mark :: (e.tokens ++ [.mark .semicolon])
  | .branch branches otherwise =>
    .word "if" :: Stmt.tokensOfBranches
      (if otherwise.isEmpty then []
        else .word "else" :: .mark .openBrace ::
          (Stmt.tokensOfBlock otherwise ++ [.mark .closeBrace])) branches
  | .repeatWhile condition body =>
    .word "while" :: (condition.tokens ++ .mark .openBrace ::
      (Stmt.tokensOfBlock body ++ [.mark .closeBrace]))
  | .repeatForever body =>
    .word "loop" :: .mark .openBrace :: (Stmt.tokensOfBlock body ++ [.mark .closeBrace])
  | .forEach name items body =>
    .word "for" :: .word name :: .word "in" :: (items.tokens ++ .mark .openBrace ::
      (Stmt.tokensOfBlock body ++ [.mark .closeBrace]))
  | .leaveLoop => [.word "break", .mark .semicolon]
  | .nextRound => [.word "continue", .mark .semicolon]
  | .leaveFunction none => [.word "return", .mark .semicolon]
  | .leaveFunction (some e) => .word "return" :: (e.tokens ++ [.mark .semicolon])
  | .raise e => .word "throw" :: (e.tokens ++ [.mark .semicolon])
  | .attempt body name handler =>
    .word "try" :: .mark .openBrace :: (Stmt.tokensOfBlock body ++ .mark .closeBrace ::
      .word "catch" ::
        (name.elim [] (fun name => [.mark .openParen, .word name, .mark .closeParen]) ++
          .mark .openBrace :: (Stmt.tokensOfBlock handler ++ [.mark .closeBrace])))
  | .useModule path name =>
    [.word "import", .text path, .word "as", .word name, .mark .semicolon]
  | .run e => e.tokens ++ [.mark .semicolon]
  | .value e => e.tokens
  | .note _ => []
  | .gap => []

/-- The tokens of the statements of a block. -/
def Stmt.tokensOfBlock : List Stmt → List Token
  | [] => []
  | stmt :: stmts => Stmt.tokens stmt ++ Stmt.tokensOfBlock stmts

/-- The tokens of conditions and their blocks, and what stands behind the last of them. -/
def Stmt.tokensOfBranches (last : List Token) : List (Expr × List Stmt) → List Token
  | [] => []
  | (condition, body) :: branches =>
    condition.tokens ++ .mark .openBrace :: (Stmt.tokensOfBlock body ++ .mark .closeBrace ::
      (if branches.isEmpty then last
        else .word "else" :: .word "if" :: Stmt.tokensOfBranches last branches))

end

/-- The tokens of a block are those of its statements one after another. -/
theorem Stmt.tokensOfBlock_eq (stmts : List Stmt) :
    Stmt.tokensOfBlock stmts = stmts.flatMap Stmt.tokens := by
  induction stmts with
  | nil => rfl
  | cons stmt stmts ih => rw [Stmt.tokensOfBlock, ih, List.flatMap_cons]

/-! ## Legible statements -/

/-- Whether a text has no line breaks. -/
def isLine (text : String) : Bool := text.toList.all fun c => c != '\n' && c != '\r'

/-- Whether a statement is an expression that nothing may follow. -/
def Stmt.isValue : Stmt → Bool
  | .value _ => true
  | _ => false

mutual

/-- Whether a statement reads as it is written. -/
def Stmt.isLegible : Stmt → Bool
  | .declare name none => isPlainWord name.toList
  | .declare name (some e) => isPlainWord name.toList && e.isLegible
  | .assign place _ e => place.expr.isLegible && e.isLegible
  | .branch branches otherwise =>
    !branches.isEmpty && Stmt.areLegibleBranches branches && Stmt.areLegible otherwise
  | .repeatWhile condition body => condition.isLegible && Stmt.areLegible body
  | .repeatForever body => Stmt.areLegible body
  | .forEach name items body => isPlainWord name.toList && items.isLegible && Stmt.areLegible body
  | .leaveFunction (some e) => e.isLegible
  | .raise e => e.isLegible
  | .attempt body name handler =>
    Stmt.areLegible body && name.all (isPlainWord ·.toList) && Stmt.areLegible handler
  | .useModule _ name => isPlainWord name.toList
  | .run e => e.isLegible
  | .value e => e.isLegible
  | .note text => isLine text
  | _ => true

/-- Whether the statements of a block read as they are written: only the last one can be an
expression that no semicolon follows. -/
def Stmt.areLegible : List Stmt → Bool
  | [] => true
  | stmt :: stmts =>
    Stmt.isLegible stmt && (!stmt.isValue || stmts.all Stmt.isSilent) && Stmt.areLegible stmts

/-- Whether conditions and their blocks read as they are written. -/
def Stmt.areLegibleBranches : List (Expr × List Stmt) → Bool
  | [] => true
  | (condition, body) :: branches =>
    condition.isLegible && Stmt.areLegible body && Stmt.areLegibleBranches branches

end

/-! ## Lines of statements -/

/-- Behind a run of lines that is not empty, an empty text changes nothing. -/
theorem glue_empty {run : List String} (some' : run ≠ []) : glue run [""] = run := by
  induction run with
  | nil => exact absurd rfl some'
  | cons line rest ih =>
    cases rest with
    | nil =>
      show [line ++ ""] = [line]
      rw [String.append_empty]
    | cons line' rest =>
      show line :: glue (line' :: rest) [""] = line :: line' :: rest
      rw [ih (by simp)]

/-- A word and a blank behind it. -/
theorem lexes_word_blank {s : String} (word : isPlainWord s.toList = true) :
    Lexes anyChar (s ++ " ") [.word s] :=
  (Lexes.word word).append (.blank (by decide)) (.of_cons (c := ' ') (r := []) rfl rfl)

/-- The semicolon behind an expression. -/
theorem lexes_semicolon : Lexes endsLine ";" [.mark .semicolon] :=
  (Lexes.mark .semicolon).mono fun _ _ => rfl

/-- The brace that closes a block. -/
theorem lexes_closeBrace : Lexes endsLine "\x7d" [.mark .closeBrace] :=
  (Lexes.mark .closeBrace).mono fun _ _ => rfl

/-- The brace that opens a block, behind a blank. -/
theorem lexes_openBrace : Lexes endsLine " \x7b" [.mark .openBrace] :=
  (Lexes.blank (s := " ") (by decide)).append_any ((Lexes.mark .openBrace).mono fun _ _ => rfl)

variable {before after : String}

/-- An expression between two texts. -/
theorem lexes_codeLines {lines : List String} (first : Lexes anyChar before ts)
    (spelled : Spells endsExpr lines ts') {last : List Token} (behind : Lexes endsLine after last)
    (leads : Leads endsExpr after) :
    LexesLines ((glueAll [[before], lines, [after]]).map .code) (ts ++ (ts' ++ last)) := by
  have run := spelled.lexes.glue (.last behind) ⟨after, [], rfl, leads⟩
  refine .of_run ?_
  show LexesRun endsLine (glue [before] (glue lines (glue [after] []))) _
  rw [glue_nil]
  exact (LexesRun.last first).glue run ((spelled.leads.glue _).mono fun _ _ => rfl)

/-- The line before a block whose condition or array is an expression. -/
theorem lexes_head (first : Lexes anyChar before ts) {e : Expr}
    (spelled : Spells endsExpr (e.lines tab) ts') :
    Lexes endsLine (before ++ e.text tab ++ " \x7b") (ts ++ ts' ++ [.mark .openBrace]) :=
  ((first.append_any spelled.lexes.joinLines).append lexes_openBrace
    (.of_cons (c := ' ') (r := ['\x7b']) rfl rfl))

/-- A line before a block, the block and the brace behind it. -/
theorem lexes_blockLines (blank : Text.isBlank tab.toList = true)
    (line : ∀ c ∈ tab.toList, c ≠ '\n' ∧ c ≠ '\r') {head : String} (first : Lexes endsLine head ts)
    (body : LexesLines lines ts') : LexesLines (blockLines tab head lines) (ts ++ ts') :=
  .code first (body.indent blank line)

/-- The signs of an assignment between blanks. -/
theorem lexes_assignment (assignment : Assignment) :
    Lexes anyChar (" " ++ assignment.text ++ " ") [.mark assignment.mark] := by
  have signs : assignment.text = assignment.mark.text := by cases assignment <;> rfl
  rw [signs, String.append_assoc]
  exact (Lexes.blank (s := " ") (by decide)).append_any
    (lexes_mark_blank assignment.mark (by cases assignment <;> rfl))

/-- The rest of the line in front of a handler. -/
theorem lexes_caught (name : Option String) (words : name.all (isPlainWord ·.toList) = true) :
    Lexes endsLine ("\x7d catch " ++ name.elim "" (fun name => "(" ++ name ++ ") ") ++ "\x7b")
      (.mark .closeBrace :: .word "catch" ::
        (name.elim [] (fun name => [Token.mark .openParen, .word name, .mark .closeParen]) ++
          [Token.mark .openBrace])) := by
  have brace : Lexes endsLine "\x7b" [.mark .openBrace] :=
    (Lexes.mark .openBrace).mono fun _ _ => rfl
  have lead : Lexes anyChar "\x7d catch " [.mark .closeBrace, .word "catch"] :=
    (Lexes.mark .closeBrace).append_any
      ((Lexes.blank (s := " ") (by decide)).append_any (lexes_word_blank (s := "catch")
        (by decide)))
  cases name with
  | none => exact lead.append_any ((Lexes.empty anyChar).append_any brace)
  | some name =>
    have close : Lexes anyChar ") " [.mark .closeParen] := lexes_mark_blank .closeParen rfl
    have word : Lexes anyChar (name ++ ") ") [.word name, .mark .closeParen] :=
      (Lexes.word words).append close (.of_cons (c := ')') (r := [' ']) rfl rfl)
    have caught : Lexes anyChar ("(" ++ name ++ ") ")
        [.mark .openParen, .word name, .mark .closeParen] := by
      rw [String.append_assoc]
      exact (Lexes.mark .openParen).append_any word
    exact (lead.append_any caught).append_any brace

/-- A line that makes a module known under a name. -/
theorem lexes_useModule (path : String) {name : String} (word : isPlainWord name.toList = true) :
    Lexes endsLine ("import " ++ quoted path ++ " as " ++ name ++ ";")
      [.word "import", .text path, .word "as", .word name, .mark .semicolon] := by
  have as : Lexes anyChar " as " [.word "as"] :=
    (Lexes.blank (s := " ") (by decide)).append_any (lexes_word_blank (s := "as") (by decide))
  have behind : Lexes endsLine (name ++ ";") [.word name, .mark .semicolon] :=
    (Lexes.word word).append lexes_semicolon (.of_cons (c := ';') (r := []) rfl rfl)
  have first : Lexes anyChar ("import " ++ quoted path ++ " as ")
      [.word "import", .text path, .word "as"] :=
    (((lexes_word_blank (s := "import") (by decide)).append_any (.quoted path)).append as
      (.of_cons (c := ' ') (r := ['a', 's', ' ']) rfl rfl))
  rw [String.append_assoc]
  exact first.append_any behind

/-- The block behind `else`, and the last brace. -/
theorem lexes_otherwise (blank : Text.isBlank tab.toList = true)
    (line : ∀ c ∈ tab.toList, c ≠ '\n' ∧ c ≠ '\r') {otherwise : List Stmt}
    (block : LexesLines (Stmt.linesOfBlock tab otherwise) (Stmt.tokensOfBlock otherwise)) :
    LexesLines ((if otherwise.isEmpty then []
        else blockLines tab "\x7d else \x7b" (Stmt.linesOfBlock tab otherwise)) ++
        [Line.code "\x7d"])
      (.mark .closeBrace :: (if otherwise.isEmpty then []
        else .word "else" :: .mark .openBrace ::
          (Stmt.tokensOfBlock otherwise ++ [Token.mark .closeBrace]))) := by
  by_cases none : otherwise.isEmpty = true
  · rw [if_pos none, if_pos none]
    exact .single lexes_closeBrace
  · rw [if_neg none, if_neg none]
    have head : Lexes endsLine "\x7d else \x7b"
        [.mark .closeBrace, .word "else", .mark .openBrace] :=
      (Lexes.mark .closeBrace).append_any
        ((Lexes.blank (s := " ") (by decide)).append_any
          ((Lexes.word (s := "else") (by decide)).append lexes_openBrace
            (.of_cons (c := ' ') (r := ['\x7b']) rfl rfl)))
    have all := (lexes_blockLines blank line head block).append (.single lexes_closeBrace)
    rw [List.append_assoc] at all
    exact all

mutual

/-- The lines of a legible statement are cut into its tokens. -/
theorem Stmt.spells (blank : Text.isBlank tab.toList = true)
    (line : ∀ c ∈ tab.toList, c ≠ '\n' ∧ c ≠ '\r') :
    (stmt : Stmt) → stmt.isLegible = true → LexesLines (stmt.lines tab) stmt.tokens
  | .declare name none, h => by
    unfold Stmt.isLegible at h
    have behind : Lexes endsLine (name ++ ";") [.word name, .mark .semicolon] :=
      (Lexes.word h).append lexes_semicolon (.of_cons (c := ';') (r := []) rfl rfl)
    have text : "let " ++ name ++ ";" = "let " ++ (name ++ ";") := String.append_assoc ..
    show LexesLines [.code ("let " ++ name ++ ";")] _
    rw [text]
    exact .single ((lexes_word_blank (s := "let") (by decide)).append_any behind)
  | .declare name (some e), h => by
    unfold Stmt.isLegible at h
    rw [Bool.and_eq_true] at h
    have set : Lexes anyChar " = " [.mark .set] := lexes_assignment .set
    have first : Lexes anyChar ("let " ++ name ++ " = ") [.word "let", .word name, .mark .set] :=
      ((lexes_word_blank (s := "let") (by decide)).append_any (.word h.1)).append set
        (.of_cons (c := ' ') (r := ['=', ' ']) rfl rfl)
    exact lexes_codeLines first (e.spells blank h.2).weaken lexes_semicolon
      (.of_cons (c := ';') (r := []) rfl rfl)
  | .assign place assignment e, h => by
    unfold Stmt.isLegible at h
    rw [Bool.and_eq_true] at h
    have target := (place.expr.spells blank h.1).weaken
    have value := (e.spells blank h.2).weaken
    have end' := value.lexes.glue (.last lexes_semicolon)
      ⟨";", [], rfl, .of_cons (c := ';') (r := []) rfl rfl⟩
    -- put together from the end, since each part is read up to what stands behind it
    have signs := (LexesRun.last (lexes_assignment assignment)).glue end'
      ((value.leads.glue _).mono fun _ _ => rfl)
    have leads : LeadsRun endsExpr [" " ++ assignment.text ++ " "] :=
      ⟨_, [], rfl, Leads.append (Leads.append (s := " ") (by rfl) _) _⟩
    have all := target.lexes.glue signs (leads.glue _)
    refine .of_run ?_
    show LexesRun endsLine (glue _ (glue _ (glue _ (glue [";"] [])))) _
    rw [glue_nil]
    exact all
  | .branch branches otherwise, h => by
    unfold Stmt.isLegible at h
    simp only [Bool.and_eq_true, Bool.not_eq_true', List.isEmpty_eq_false_iff] at h
    obtain ⟨⟨some', legible⟩, legible'⟩ := h
    -- a branch behind another one opens on the line on which that one closes
    have last := lexes_otherwise blank line (Stmt.spells_block blank line otherwise legible')
    have all := Stmt.spells_branches blank line branches legible some' _ _ _ _
      (.empty anyChar) last
    rw [← List.append_assoc] at all
    exact all
  | .repeatWhile condition body, h => by
    unfold Stmt.isLegible at h
    rw [Bool.and_eq_true] at h
    have head := lexes_head (lexes_word_blank (s := "while") (by decide))
      (condition.spells blank h.1).weaken
    have all := (lexes_blockLines blank line head (Stmt.spells_block blank line body h.2)).append
      (.single lexes_closeBrace)
    simp only [List.append_assoc] at all
    exact all
  | .repeatForever body, h => by
    unfold Stmt.isLegible at h
    have head : Lexes endsLine "loop \x7b" [.word "loop", .mark .openBrace] :=
      (Lexes.word (s := "loop") (by decide)).append lexes_openBrace
        (.of_cons (c := ' ') (r := ['\x7b']) rfl rfl)
    have all := (lexes_blockLines blank line head (Stmt.spells_block blank line body h)).append
      (.single lexes_closeBrace)
    rw [List.append_assoc] at all
    exact all
  | .forEach name items body, h => by
    unfold Stmt.isLegible at h
    rw [Bool.and_eq_true, Bool.and_eq_true] at h
    have in' : Lexes anyChar " in " [.word "in"] :=
      (Lexes.blank (s := " ") (by decide)).append_any (lexes_word_blank (s := "in") (by decide))
    have first : Lexes anyChar ("for " ++ name ++ " in ") [.word "for", .word name, .word "in"] :=
      ((lexes_word_blank (s := "for") (by decide)).append_any (.word h.1.1)).append in'
        (.of_cons (c := ' ') (r := ['i', 'n', ' ']) rfl rfl)
    have head := lexes_head first (items.spells blank h.1.2).weaken
    have all := (lexes_blockLines blank line head (Stmt.spells_block blank line body h.2)).append
      (.single lexes_closeBrace)
    simp only [List.append_assoc] at all
    exact all
  | .leaveLoop, _ =>
    .single ((Lexes.word (s := "break") (by decide)).append lexes_semicolon
      (.of_cons (c := ';') (r := []) rfl rfl))
  | .nextRound, _ =>
    .single ((Lexes.word (s := "continue") (by decide)).append lexes_semicolon
      (.of_cons (c := ';') (r := []) rfl rfl))
  | .leaveFunction none, _ =>
    .single ((Lexes.word (s := "return") (by decide)).append lexes_semicolon
      (.of_cons (c := ';') (r := []) rfl rfl))
  | .leaveFunction (some e), h => by
    unfold Stmt.isLegible at h
    exact lexes_codeLines (lexes_word_blank (s := "return") (by decide))
      (e.spells blank h).weaken lexes_semicolon (.of_cons (c := ';') (r := []) rfl rfl)
  | .raise e, h => by
    unfold Stmt.isLegible at h
    exact lexes_codeLines (lexes_word_blank (s := "throw") (by decide))
      (e.spells blank h).weaken lexes_semicolon (.of_cons (c := ';') (r := []) rfl rfl)
  | .attempt body name handler, h => by
    unfold Stmt.isLegible at h
    rw [Bool.and_eq_true, Bool.and_eq_true] at h
    have head : Lexes endsLine "try \x7b" [.word "try", .mark .openBrace] :=
      (Lexes.word (s := "try") (by decide)).append lexes_openBrace
        (.of_cons (c := ' ') (r := ['\x7b']) rfl rfl)
    have first := lexes_blockLines blank line head (Stmt.spells_block blank line body h.1.1)
    have second := lexes_blockLines blank line (lexes_caught name h.1.2)
      (Stmt.spells_block blank line handler h.2)
    have all := (first.append second).append (.single lexes_closeBrace)
    simp only [List.append_assoc, List.cons_append, List.nil_append] at all
    rw [← List.append_assoc] at all
    exact all
  | .useModule path name, h => by
    unfold Stmt.isLegible at h
    exact .single (lexes_useModule path h)
  | .run e, h => by
    unfold Stmt.isLegible at h
    exact lexes_codeLines (.empty anyChar) (e.spells blank h).weaken lexes_semicolon
      (.of_cons (c := ';') (r := []) rfl rfl)
  | .value e, h => by
    unfold Stmt.isLegible at h
    have spelled := (e.spells blank h).weaken
    obtain ⟨first, rest, lines, -⟩ := spelled.leads
    have all := (LexesRun.last (.empty anyChar)).glue spelled.lexes
      (spelled.leads.mono fun _ _ => rfl)
    refine .of_run ?_
    show LexesRun endsLine (glue [""] (glue (e.lines tab) [""])) e.tokens
    rw [glue_empty (by simp [lines])]
    exact all.mono fun c h => by
      have newline : c = '\n' := by simpa [endsLine] using h
      subst newline
      rfl
  | .note text, h => by
    unfold Stmt.isLegible at h
    refine .remark (isRemark_of_line fun c m => ?_) .nil
    have plain := List.all_eq_true.1 h c m
    rw [Bool.and_eq_true, bne_iff_ne, bne_iff_ne] at plain
    exact plain
  | .gap, _ => .single (.empty endsLine)

/-- The lines of legible statements are cut into their tokens. -/
theorem Stmt.spells_block (blank : Text.isBlank tab.toList = true)
    (line : ∀ c ∈ tab.toList, c ≠ '\n' ∧ c ≠ '\r') :
    (stmts : List Stmt) → Stmt.areLegible stmts = true →
      LexesLines (Stmt.linesOfBlock tab stmts) (Stmt.tokensOfBlock stmts)
  | [], _ => .nil
  | stmt :: stmts, h => by
    unfold Stmt.areLegible at h
    rw [Bool.and_eq_true, Bool.and_eq_true] at h
    exact (Stmt.spells blank line stmt h.1.1).append (Stmt.spells_block blank line stmts h.2)

/-- The lines of conditions and their blocks are cut into their tokens, with a text in front of the
first and lines behind the last. -/
theorem Stmt.spells_branches (blank : Text.isBlank tab.toList = true)
    (line : ∀ c ∈ tab.toList, c ≠ '\n' ∧ c ≠ '\r') :
    (branches : List (Expr × List Stmt)) → Stmt.areLegibleBranches branches = true →
      branches ≠ [] → ∀ (shut : String) (ts ts' : List Token) (lines : List Line),
        Lexes anyChar shut ts → LexesLines lines (.mark .closeBrace :: ts') →
          LexesLines (Stmt.linesOfBranches tab shut branches ++ lines)
            (ts ++ (.word "if" :: Stmt.tokensOfBranches ts' branches))
  | [], _, some' => absurd rfl some'
  | (condition, body) :: branches, h, _ => by
    intro shut ts ts' lines first last
    unfold Stmt.areLegibleBranches at h
    rw [Bool.and_eq_true, Bool.and_eq_true] at h
    have opening : Lexes anyChar (shut ++ "if ") (ts ++ [.word "if"]) :=
      first.append_any (lexes_word_blank (s := "if") (by decide))
    have head := lexes_head opening (condition.spells blank h.1.1).weaken
    have block := lexes_blockLines blank line head (Stmt.spells_block blank line body h.1.2)
    cases branches with
    | nil =>
      have all := block.append last
      simp only [List.append_assoc, List.cons_append, List.nil_append] at all
      show LexesLines (blockLines _ _ _ ++ [] ++ lines) _
      rw [List.append_nil]
      exact all
    | cons branch branches =>
      have else' : Lexes anyChar "\x7d else " [.mark .closeBrace, .word "else"] :=
        (Lexes.mark .closeBrace).append_any
          ((Lexes.blank (s := " ") (by decide)).append_any
            (lexes_word_blank (s := "else") (by decide)))
      have rest := Stmt.spells_branches blank line (branch :: branches) h.2 (by simp) _ _
        _ _ else' last
      have all := block.append rest
      simp only [List.append_assoc, List.cons_append, List.nil_append] at all
      show LexesLines (blockLines _ _ _ ++
        Stmt.linesOfBranches tab "\x7d else " (branch :: branches) ++ lines) _
      rw [List.append_assoc]
      exact all

end

/-! ## Functions -/

/-- The tokens of the names of parameters. -/
def parameterTokens (names : List String) : List Token :=
  between (names.map fun name => [.word name])

/-- The tokens of a function. -/
def Function.tokens (f : Function) : List Token :=
  .word "fn" :: .word f.name :: .mark .openParen ::
    (parameterTokens f.parameters ++ .mark .closeParen :: .mark .openBrace ::
      (Stmt.tokensOfBlock f.body ++ [.mark .closeBrace]))

/-- Whether a function reads as it is written. -/
def Function.isLegible (f : Function) : Bool :=
  isPlainWord f.name.toList && f.parameters.all (isPlainWord ·.toList) && Stmt.areLegible f.body

/-- The names of parameters in front of a closing text. -/
theorem lexes_parameters {names : List String} (words : names.all (isPlainWord ·.toList) = true)
    (h : Lexes q s ts) (leads : Leads endsExpr s) :
    Lexes q (", ".intercalate names ++ s) (parameterTokens names ++ ts) := by
  induction names with
  | nil =>
    show Lexes q ("" ++ s) ts
    rw [String.empty_append]
    exact h
  | cons name names ih =>
    rw [List.all_cons, Bool.and_eq_true] at words
    cases names with
    | nil =>
      rw [String.intercalate_singleton]
      exact (Lexes.word words.1).append h (leads.mono fun c ends => by
        simp [endsWord, (endsExpr_spec ends).1])
    | cons name' names =>
      rw [String.intercalate_cons_of_ne_nil (by simp), String.append_assoc, String.append_assoc]
      have comma : Lexes anyChar ", " [.mark .comma] := lexes_mark_blank .comma rfl
      exact (Lexes.word words.1).append (comma.append_any (ih words.2))
        (Leads.append (s := ", ") (by rfl) _)

/-- The text of a legible function is cut into its tokens. -/
theorem Function.lexes (blank : Text.isBlank tab.toList = true)
    (line : ∀ c ∈ tab.toList, c ≠ '\n' ∧ c ≠ '\r') {f : Function} (legible : f.isLegible = true) :
    Lexes endsLine (f.text tab) f.tokens := by
  unfold isLegible at legible
  rw [Bool.and_eq_true, Bool.and_eq_true] at legible
  have brace : Lexes endsLine ") \x7b" [.mark .closeParen, .mark .openBrace] :=
    (Lexes.mark .closeParen).append_any lexes_openBrace
  have first : Lexes anyChar ("fn " ++ f.name ++ "(")
      [.word "fn", .word f.name, .mark .openParen] := by
    rw [String.append_assoc]
    exact (lexes_word_blank (s := "fn") (by decide)).append_any
      (lexes_function legible.1.1)
  have head : Lexes endsLine
      ("fn " ++ f.name ++ "(" ++ ", ".intercalate f.parameters ++ ") \x7b")
      ([Token.word "fn", .word f.name, .mark .openParen] ++
        (parameterTokens f.parameters ++ [Token.mark .closeParen, .mark .openBrace])) := by
    rw [String.append_assoc]
    exact first.append_any (lexes_parameters legible.1.2 brace
      (.of_cons (c := ')') (r := [' ', '\x7b']) rfl rfl))
  have block := lexes_blockLines blank line head (Stmt.spells_block blank line f.body legible.2)
  have all := (block.append (.single lexes_closeBrace)).joinLines (by
    unfold blockLines
    simp)
  simp only [List.append_assoc, List.cons_append, List.nil_append] at all
  exact all

/-- An indentation of spaces is blank. -/
theorem isBlank_spaces (width : Nat) :
    Text.isBlank (String.ofList (List.replicate width ' ')).toList = true := by
  rw [String.toList_ofList, Text.isBlank, List.all_replicate]
  simp [Text.isBlankChar]

/-- An indentation of spaces breaks no line. -/
theorem inLine_spaces (width : Nat) :
    ∀ c ∈ (String.ofList (List.replicate width ' ')).toList, c ≠ '\n' ∧ c ≠ '\r' := by
  intro c m
  rw [String.toList_ofList] at m
  rw [List.eq_of_mem_replicate m]
  decide

/-- The tokens of functions one behind another. -/
def functionsTokens (functions : List Function) : List Token :=
  functions.flatMap Function.tokens

/-- Texts with blank space between each two, which starts with a line feed. -/
theorem lexes_separate {α : Type} (separator : String)
    (blank : Text.isBlank separator.toList = true) (breaks : Leads endsLine separator)
    {text : α → String} {tokens : α → List Token} {items : List α}
    (h : ∀ item ∈ items, Lexes endsLine (text item) (tokens item)) :
    Lexes endsLine (separator.intercalate (items.map text)) (items.flatMap tokens) := by
  induction items with
  | nil => exact .empty endsLine
  | cons item items ih =>
    obtain ⟨first, others⟩ := List.forall_mem_cons.1 h
    cases items with
    | nil =>
      rw [List.map_singleton, String.intercalate_singleton, List.flatMap_singleton]
      exact first
    | cons next items =>
      rw [List.map_cons, String.intercalate_cons_of_ne_nil (by simp), List.flatMap_cons]
      have broken : Lexes anyChar (text item ++ separator) (tokens item ++ []) :=
        first.append (.blank blank) breaks
      rw [List.append_nil] at broken
      exact broken.append_any (ih others)

end Pipewright.Script
