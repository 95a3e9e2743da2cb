import Mathlib
import Pipewright.Proofs.Script.Numbers

/-! # The text of an expression
The lines of a legible expression are cut into its tokens. -/

namespace Pipewright.Script

open Lexer

/-- Whether a character can start an expression: none makes a longer sign of an exclamation mark. -/
def startsExpr (c : Char) : Bool := c != '='

/-- Whether a character ends an expression. Behind what can be a target a point may follow. -/
def Expr.ends (e : Expr) : Char → Bool := if e.isTarget then endsWord else endsExpr

/-- The lines of something are cut into its tokens, and start as an expression does. -/
structure Spells (p : Char → Bool) (lines : List String) (ts : List Token) : Prop where
  /-- The lines are cut into the tokens. -/
  lexes : LexesRun p lines ts
  /-- The first line starts as an expression does. -/
  leads : LeadsRun startsExpr lines

variable {p q : Char → Bool} {s opening closing tab : String} {runs : List (List String)}
  {tss : List (List Token)} {ts ts' : List Token}

/-! ## Pieces -/

/-- A text of one line. -/
theorem Spells.single (h : Lexes p s ts) (leads : Leads startsExpr s) : Spells p [s] ts :=
  ⟨.last h, s, [], rfl, leads⟩

/-- What ends any expression ends this one. -/
theorem Expr.ends_of_endsExpr (e : Expr) {c : Char} (h : endsExpr c = true) : e.ends c = true := by
  unfold ends
  split
  · unfold endsWord
    simp [(endsExpr_spec h).1]
  · exact h

/-- An expression in front of something that ends any one. -/
theorem Spells.weaken {e : Expr} {lines : List String} (h : Spells e.ends lines ts) :
    Spells endsExpr lines ts :=
  ⟨h.lexes.mono fun _ => e.ends_of_endsExpr, h.leads⟩

/-- A word and a sign behind it. -/
theorem lexes_word_mark {name : String} (word : isPlainWord name.toList = true) {m : Mark}
    (leads : Leads endsWord m.text) : Lexes m.ends (name ++ m.text) [.word name, .mark m] :=
  (Lexes.word word).append (.mark m) leads

/-- A sign and a blank behind it. -/
theorem lexes_mark_blank (m : Mark) (ends : m.ends ' ' = true) :
    Lexes anyChar (m.text ++ " ") [.mark m] :=
  (Lexes.mark m).append (.blank (by decide)) (.of_cons (c := ' ') (r := []) rfl ends)

/-- A word starts as an expression does. -/
theorem leads_word {name : String} (word : isPlainWord name.toList = true) :
    Leads startsExpr name := by
  cases e : name.toList with
  | nil =>
    rw [e] at word
    cases word
  | cons c cs =>
    rw [e] at word
    refine .of_cons e ?_
    have start := (Bool.and_eq_true_iff.1 word).1
    unfold startsExpr
    rw [bne_iff_ne]
    rintro rfl
    exact absurd start (by decide)

/-- A word with which an expression can start is a word. -/
theorem isPlainWord_of_isNameWord {name : String} (h : isNameWord name = true) :
    isPlainWord name.toList = true := by
  unfold isNameWord at h
  simp only [Bool.and_eq_true] at h
  exact h.1.1.1

/-- An identifier is a word. -/
theorem isPlainWord_of_isIdentifier {name : String} (h : isIdentifier name = true) :
    isPlainWord name.toList = true := by
  unfold isIdentifier isWord at h
  rw [Bool.and_eq_true] at h
  cases e : name.toList with
  | nil =>
    rw [e] at h
    cases h.1
  | cons c cs =>
    rw [e] at h
    have := h.1
    rw [Bool.and_eq_true] at this
    exact this.1

/-- An identifier is no word that the language keeps for itself. -/
theorem isReserved_of_isIdentifier {name : String} (h : isIdentifier name = true) :
    isReserved name = false := by
  unfold isIdentifier at h
  rw [Bool.and_eq_true, Bool.not_eq_true'] at h
  exact h.2

/-! ## Items between brackets -/

/-- Items between commas in front of a closing text. -/
theorem lexes_separated (items : List.Forall₂ (Spells endsExpr) runs tss)
    (h : Lexes q closing ts) (leads : Leads endsExpr closing) :
    LexesRun q (glueAll (separate ", " runs ++ [[closing]])) (between tss ++ ts) ∧
      LeadsRun anyChar (glueAll (separate ", " runs ++ [[closing]])) := by
  have comma : Lexes anyChar ", " [.mark .comma] := lexes_mark_blank .comma rfl
  have closing' : LeadsRun endsExpr [closing] := ⟨closing, [], rfl, leads⟩
  induction items with
  | nil => exact ⟨.last h, closing'.mono fun _ _ => rfl⟩
  | @cons run ts₁ runs tss first rest ih =>
    cases rest with
    | nil =>
      show LexesRun q (glue run (glue [closing] [])) (ts₁ ++ ts) ∧ LeadsRun anyChar (glue run _)
      rw [glue_nil]
      exact ⟨first.lexes.glue (.last h) closing', (first.leads.glue _).mono fun _ _ => rfl⟩
    | @cons run' ts₂ runs tss second rest =>
      obtain ⟨lexes, leads'⟩ := ih
      show LexesRun q (glue run (glue [", "] _)) (ts₁ ++ .mark .comma :: between (ts₂ :: tss) ++ ts) ∧
        LeadsRun anyChar (glue run _)
      have behind := (LexesRun.last comma).glue lexes leads'
      have separator : LeadsRun endsExpr [", "] := ⟨", ", [], rfl, rfl⟩
      refine ⟨?_, (first.leads.glue _).mono fun _ _ => rfl⟩
      have all := first.lexes.glue behind (separator.glue _)
      rw [List.append_assoc]
      exact all

/-- Items on lines of their own with commas behind all but the last. -/
theorem lexes_spreadOut (blank : Text.isBlank tab.toList = true)
    (items : List.Forall₂ (Spells endsExpr) runs tss) (some' : runs ≠ []) :
    LexesRun endsLine (spreadOut tab runs) (between tss) := by
  have line : ∀ c, endsLine c = true → endsExpr c = true := by
    intro c h
    have newline : c = '\n' := by simpa [endsLine] using h
    subst newline
    rfl
  induction items with
  | nil => exact absurd rfl some'
  | @cons run ts₁ runs tss first rest ih =>
    cases rest with
    | nil => exact (first.lexes.mono line).indent blank
    | @cons run' ts₂ runs tss second rest =>
      have comma : LexesRun endsLine [","] [.mark .comma] :=
        .last ((Lexes.mark .comma).mono fun _ _ => rfl)
      have head := (first.lexes.glue comma ⟨",", [], rfl, rfl⟩).indent blank
      have all := head.append (ih (by simp))
      rw [List.append_assoc] at all
      exact all

/-- Items between brackets, in either layout. -/
theorem lexes_bracketed (blank : Text.isBlank tab.toList = true)
    (items : List.Forall₂ (Spells endsExpr) runs tss) (layout : Layout)
    (open' : Lexes anyChar opening ts) (close : Lexes q closing ts')
    (leads : Leads endsExpr closing) :
    LexesRun q (bracketed tab opening closing layout runs) (ts ++ (between tss ++ ts')) := by
  cases layout with
  | inline =>
    obtain ⟨lexes, leads'⟩ := lexes_separated items close leads
    exact (LexesRun.last open').glue lexes leads'
  | spread =>
    refine .more (open'.mono fun _ _ => rfl) ?_
    by_cases none : runs = []
    · subst none
      cases items
      exact .last close
    · exact (lexes_spreadOut blank items none).append (.last close)

/-- Brackets start with the opening one. -/
theorem leads_bracketed (layout : Layout) (runs : List (List String)) (h : Leads p opening) :
    LeadsRun p (bracketed tab opening closing layout runs) := by
  have run : LeadsRun p [opening] := ⟨opening, [], rfl, h⟩
  cases layout with
  | inline => exact run.glue _
  | spread => exact ⟨opening, _, rfl, h⟩

/-! ## Expressions -/

/-- A whole number is cut into its sign and its digits. -/
theorem spells_int (n : Int) : Spells endsExpr [toString n] (intTokens n) := by
  unfold intTokens
  cases n with
  | ofNat n =>
    obtain ⟨all, c, cs, e⟩ := toString_digits n
    have digit : c.isDigit = true := all c (e ▸ List.mem_cons_self)
    rw [if_neg (by simp)]
    refine .single (Lexes.digits n) (.of_cons e ?_)
    unfold startsExpr
    rw [bne_iff_ne]
    rintro rfl
    exact absurd digit (by decide)
  | negSucc n =>
    obtain ⟨all, c, cs, e⟩ := toString_digits (n + 1)
    have digit : c.isDigit = true := all c (e ▸ List.mem_cons_self)
    have text : toString (Int.negSucc n) = Mark.text .minus ++ toString (n + 1) := rfl
    rw [if_pos (Int.negSucc_lt_zero n), text]
    refine .single ((Lexes.mark .minus).append (Lexes.digits (n + 1)) (.of_cons e ?_))
      (Leads.append (s := "-") (by rfl) _)
    show (c != '=') = true
    rw [bne_iff_ne]
    rintro rfl
    exact absurd digit (by decide)

/-- A finite floating-point number is cut into its sign and its digits. -/
theorem spells_float {x : Float} (finite : Decimal.Finite x) :
    Spells endsExpr [floatText x] (floatTokens x) := by
  obtain ⟨n, sound, text, value⟩ := exists_floatText finite
  have cut := Lexes.numeral sound
  have noMark : ∀ c : Char, c.isDigit = true → (c != '=') = true := by
    intro c digit
    rw [bne_iff_ne]
    exact Decimal.ne_of_isDigit digit (by decide)
  rw [value] at cut
  rw [text]
  unfold floatTokens
  split
  · next negative =>
    rw [if_pos negative] at cut
    exact .single ((Lexes.mark .minus).append cut (leads_numeral noMark sound))
      (Leads.append (s := "-") (by rfl) _)
  · next positive =>
    rw [if_neg positive] at cut
    rw [String.empty_append]
    exact .single cut (leads_numeral noMark sound)

/-- A key is cut into its token. -/
theorem lexes_key (key : String) : Lexes anyChar (keyText key ++ ": ") [keyToken key, .mark .colon] := by
  have colon : Lexes anyChar ": " [.mark .colon] := lexes_mark_blank .colon rfl
  have leads : ∀ {p : Char → Bool}, p ':' = true → Leads p ": " :=
    fun ok => .of_cons (c := ':') (r := [' ']) rfl ok
  unfold keyText keyToken
  by_cases word : isIdentifier key = true
  · rw [if_pos word, if_pos word]
    exact (Lexes.word (isPlainWord_of_isIdentifier word)).append colon (leads rfl)
  · rw [if_neg word, if_neg word]
    exact (Lexes.quoted key).append colon (leads rfl)

/-- A quoted text starts with its quote. -/
theorem leads_quoted (text : String) : Leads startsExpr (quoted text) :=
  .of_cons (c := '"') (by rw [quoted, String.toList_ofList]; rfl) rfl

/-- A key starts as an expression does. -/
theorem leads_key (key : String) : Leads startsExpr (keyText key) := by
  unfold keyText
  by_cases word : isIdentifier key = true
  · rw [if_pos word]
    exact leads_word (isPlainWord_of_isIdentifier word)
  · rw [if_neg word]
    exact leads_quoted _

/-- A function with the bracket behind its name. -/
theorem lexes_function {function : String} (word : isPlainWord function.toList = true) :
    Lexes anyChar (function ++ "(") [.word function, .mark .openParen] :=
  lexes_word_mark word (m := .openParen) rfl

/-- A point and the name of a member. -/
theorem lexes_member {name : String} (word : isPlainWord name.toList = true) :
    Lexes endsWord ("." ++ name) [.mark .dot, .word name] :=
  (Lexes.mark .dot).append_any (.word word)

/-- A name in a module. -/
theorem lexes_path {space name : String} (word : isPlainWord space.toList = true)
    (word' : isPlainWord name.toList = true) :
    Lexes endsWord (space ++ "::" ++ name) [.word space, .mark .path, .word name] :=
  (lexes_word_mark word (m := .path) rfl).append_any (.word word')

/-- The signs of an operator between blanks. -/
theorem lexes_operator (operator : Operator) :
    Lexes anyChar (" " ++ operator.text ++ " ") [.mark operator.mark] := by
  have signs : operator.text = operator.mark.text := by cases operator <;> rfl
  rw [signs, String.append_assoc]
  exact (Lexes.blank (s := " ") (by decide)).append_any
    (lexes_mark_blank operator.mark (by cases operator <;> rfl))

/-- Behind a target a member may follow. -/
theorem Expr.ends_of_isTarget {e : Expr} (target : e.isTarget = true) : e.ends = endsWord := by
  unfold ends
  rw [if_pos target]

mutual

/-- The lines of a legible expression are cut into its tokens. -/
theorem Expr.spells (blank : Text.isBlank tab.toList = true) :
    (e : Expr) → e.isLegible = true → Spells e.ends (e.lines tab) e.tokens
  | .unit, _ =>
    .single ((Lexes.mark .openParen).append_any ((Lexes.mark .closeParen).mono fun _ _ => rfl))
      rfl
  | .bool true, _ =>
    .single ((Lexes.word (s := "true") (by decide)).mono fun c h => by
      simp [endsWord, (endsExpr_spec h).1]) rfl
  | .bool false, _ =>
    .single ((Lexes.word (s := "false") (by decide)).mono fun c h => by
      simp [endsWord, (endsExpr_spec h).1]) rfl
  | .int n, _ => spells_int n.toInt
  | .float x, h => by
    unfold Expr.isLegible at h
    rw [Bool.and_eq_true, Bool.not_eq_true', Bool.not_eq_true'] at h
    exact spells_float ⟨h.1, h.2⟩
  | .str text, _ =>
    .single ((Lexes.quoted text).mono fun c h => by
      rw [bne_iff_ne]
      exact (endsExpr_spec h).2.2) (leads_quoted _)
  -- names and places are read up to what cannot go on with a word
  | .var name, h => by
    unfold Expr.isLegible at h
    have word := isPlainWord_of_isNameWord h
    exact .single (.word word) (leads_word word)
  | .constant space name, h => by
    unfold Expr.isLegible at h
    rw [Bool.and_eq_true] at h
    have word := isPlainWord_of_isNameWord h.1
    have text : (space ++ "::" ++ name) = space ++ ("::" ++ name) := String.append_assoc ..
    refine .single ((lexes_path word h.2).mono fun c h => ?_) (text ▸ (leads_word word).append _)
    simp [endsWord, (endsExpr_spec h).1]
  | .array layout items, h => by
    unfold Expr.isLegible at h
    exact ⟨lexes_bracketed blank (Expr.spells_items blank items h) layout
      ((Lexes.mark .openBracket).mono fun _ _ => rfl)
      ((Lexes.mark .closeBracket).mono fun _ _ => rfl) rfl,
      leads_bracketed layout _ rfl⟩
  | .object layout entries, h => by
    unfold Expr.isLegible at h
    have items := Expr.spells_entries blank entries h
    have brace : Lexes endsExpr "\x7d" [.mark .closeBrace] :=
      (Lexes.mark .closeBrace).mono fun _ _ => rfl
    cases layout with
    | spread =>
      exact ⟨lexes_bracketed blank items .spread (Lexes.mark .openMap) brace
        rfl, leads_bracketed .spread _ rfl⟩
    | inline =>
      have lines : Expr.lines tab (.object .inline entries) =
          if (Expr.linesOfEntries tab entries).isEmpty then ["#\x7b\x7d"]
          else bracketed tab "#\x7b " " \x7d" .inline (Expr.linesOfEntries tab entries) := rfl
      rw [lines]
      -- an empty map on one line has no blanks between its braces
      cases entries with
      | nil => exact .single ((Lexes.mark .openMap).append_any brace) rfl
      | cons entry entries =>
        have leads : LeadsRun startsExpr (bracketed tab "#\x7b " " \x7d" .inline
            (Expr.linesOfEntries tab (entry :: entries))) := leads_bracketed .inline _ rfl
        exact ⟨lexes_bracketed blank items .inline (lexes_mark_blank .openMap rfl)
          ((Lexes.blank (s := " ") (by decide)).append_any brace) rfl, leads⟩
  | .call function arguments, h => by
    unfold Expr.isLegible at h
    rw [Bool.and_eq_true] at h
    have word := isPlainWord_of_isNameWord h.1
    exact ⟨lexes_bracketed blank (Expr.spells_items blank arguments h.2) .inline
      (lexes_function word) ((Lexes.mark .closeParen).mono fun _ _ => rfl) rfl,
      leads_bracketed .inline _ ((leads_word word).append _)⟩
  | .moduleCall space function arguments, h => by
    unfold Expr.isLegible at h
    rw [Bool.and_eq_true, Bool.and_eq_true] at h
    have word := isPlainWord_of_isNameWord h.1.1
    have path : Lexes anyChar (space ++ "::" ++ function ++ "(")
        [.word space, .mark .path, .word function, .mark .openParen] :=
      (lexes_path word h.1.2).append (Lexes.mark .openParen) rfl
    have text : (space ++ "::" ++ function ++ "(") = space ++ ("::" ++ function ++ "(") := by
      simp only [String.append_assoc]
    exact ⟨lexes_bracketed blank (Expr.spells_items blank arguments h.2) .inline path
      ((Lexes.mark .closeParen).mono fun _ _ => rfl) rfl,
      leads_bracketed .inline _ (text ▸ (leads_word word).append _)⟩
  | .method receiver function arguments, h => by
    unfold Expr.isLegible at h
    simp only [Bool.and_eq_true] at h
    obtain ⟨⟨⟨target, legible⟩, word⟩, arguments'⟩ := h
    have spelled := Expr.spells blank receiver legible
    have member : Lexes anyChar ("." ++ function ++ "(")
        [.mark .dot, .word function, .mark .openParen] :=
      (lexes_member word).append (Lexes.mark .openParen) rfl
    have call : LexesRun endsWord
        (bracketed tab ("." ++ function ++ "(") ")" .inline (Expr.linesOfItems tab arguments)) _ :=
      lexes_bracketed blank (Expr.spells_items blank arguments arguments') .inline member
        ((Lexes.mark .closeParen).mono fun _ _ => rfl) rfl
    have text : ("." ++ function ++ "(") = "." ++ (function ++ "(") := String.append_assoc ..
    refine ⟨spelled.lexes.glue call (leads_bracketed .inline _ ?_), spelled.leads.glue _⟩
    rw [text, Expr.ends_of_isTarget target]
    exact Leads.append (s := ".") (by rfl) _
  | .field target name, h => by
    unfold Expr.isLegible at h
    simp only [Bool.and_eq_true] at h
    obtain ⟨⟨target', legible⟩, word⟩ := h
    have spelled := Expr.spells blank target legible
    refine ⟨spelled.lexes.glue (.last (lexes_member word)) ⟨_, [], rfl, ?_⟩, spelled.leads.glue _⟩
    rw [Expr.ends_of_isTarget target']
    exact Leads.append (s := ".") (by rfl) _
  | .index target key, h => by
    unfold Expr.isLegible at h
    simp only [Bool.and_eq_true] at h
    obtain ⟨⟨target', legible⟩, legible'⟩ := h
    have spelled := Expr.spells blank target legible
    have spelled' := (Expr.spells blank key legible').weaken
    have close : LexesRun endsWord ["]"] [.mark .closeBracket] :=
      .last ((Lexes.mark .closeBracket).mono fun _ _ => rfl)
    have behind := spelled'.lexes.glue close ⟨"]", [], rfl, rfl⟩
    have bracket := (LexesRun.last (Lexes.mark .openBracket)).glue behind
      ((spelled'.leads.glue _).mono fun _ _ => rfl)
    have leads : LeadsRun target.ends ["["] := by
      rw [Expr.ends_of_isTarget target']
      exact ⟨"[", [], rfl, rfl⟩
    refine ⟨?_, spelled.leads.glue _⟩
    have all := spelled.lexes.glue bracket (leads.glue _)
    show LexesRun endsWord (glue _ (glue ["["] (glue _ (glue ["]"] [])))) _
    rw [glue_nil]
    exact all
  | .not operand, h => by
    unfold Expr.isLegible at h
    rw [Bool.and_eq_true] at h
    have spelled := (Expr.spells blank operand h.2).weaken
    exact ⟨(LexesRun.last (Lexes.mark .not)).glue spelled.lexes spelled.leads,
      LeadsRun.glue (a := ["!"]) ⟨"!", [], rfl, by rfl⟩ _⟩
  -- a sign is spelled as a part of a number, and never stands by itself
  | .negate _, h => by
    unfold Expr.isLegible at h
    exact absurd h Bool.false_ne_true
  | .binary operator left right, h => by
    unfold Expr.isLegible at h
    simp only [Bool.and_eq_true] at h
    obtain ⟨⟨-, legible⟩, legible'⟩ := h
    have spelled := (Expr.spells blank left legible).weaken
    have spelled' := (Expr.spells blank right legible').weaken
    -- the blanks around an operator keep it apart from what its operands end and start with
    have signs : LexesRun anyChar [" " ++ operator.text ++ " "] [.mark operator.mark] :=
      .last (lexes_operator operator)
    have behind := signs.glue spelled'.lexes (spelled'.leads.mono fun _ _ => rfl)
    have blank : LeadsRun endsExpr [" " ++ operator.text ++ " "] :=
      ⟨_, [], rfl, Leads.append (Leads.append (s := " ") (by rfl) _) _⟩
    refine ⟨?_, spelled.leads.glue _⟩
    have all := spelled.lexes.glue behind (blank.glue _)
    show LexesRun endsExpr (glue _ (glue _ (glue _ []))) _
    rw [glue_nil]
    exact all
  | .paren inner, h => by
    unfold Expr.isLegible at h
    have spelled := (Expr.spells blank inner h).weaken
    have close : LexesRun endsExpr [")"] [.mark .closeParen] :=
      .last ((Lexes.mark .closeParen).mono fun _ _ => rfl)
    have behind := spelled.lexes.glue close ⟨")", [], rfl, rfl⟩
    have all := (LexesRun.last (Lexes.mark .openParen)).glue behind
      ((spelled.leads.glue _).mono fun _ _ => rfl)
    refine ⟨?_, LeadsRun.glue (a := ["("]) ⟨"(", [], rfl, by rfl⟩ _⟩
    show LexesRun endsExpr (glue ["("] (glue _ (glue [")"] []))) _
    rw [glue_nil]
    exact all

/-- The lines of legible expressions are cut into their tokens. -/
theorem Expr.spells_items (blank : Text.isBlank tab.toList = true) :
    (items : List Expr) → Expr.areLegible items = true →
      List.Forall₂ (Spells endsExpr) (Expr.linesOfItems tab items) (Expr.tokensOfItems items)
  | [], _ => .nil
  | item :: items, h => by
    unfold Expr.areLegible at h
    rw [Bool.and_eq_true] at h
    exact .cons (Expr.spells blank item h.1).weaken (Expr.spells_items blank items h.2)

/-- The lines of legible entries are cut into their tokens. -/
theorem Expr.spells_entries (blank : Text.isBlank tab.toList = true) :
    (entries : List (String × Expr)) → Expr.areLegibleEntries entries = true →
      List.Forall₂ (Spells endsExpr) (Expr.linesOfEntries tab entries)
        (Expr.tokensOfEntries entries)
  | [], _ => .nil
  | (key, e) :: entries, h => by
    unfold Expr.areLegibleEntries at h
    rw [Bool.and_eq_true] at h
    have spelled := (Expr.spells blank e h.1).weaken
    refine .cons ⟨?_, LeadsRun.glue ⟨_, [], rfl, (leads_key key).append _⟩ _⟩
      (Expr.spells_entries blank entries h.2)
    exact (LexesRun.last (lexes_key key)).glue spelled.lexes (spelled.leads.mono fun _ _ => rfl)

end

end Pipewright.Script
