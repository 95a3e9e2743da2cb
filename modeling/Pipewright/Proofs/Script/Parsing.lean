import Pipewright.Proofs.Script.Blocks
import Pipewright.Script.Parser

/-! # Reading written programs
The tokens of a legible program are read as the program without its layout, if they are read as
anything. -/

namespace Pipewright.Script

open Script.Parser

/-! ## What follows an expression -/

/-- Whether the tokens go on a name: with an argument list or with a name in a module. -/
def extendsName : List Token → Bool
  | .mark .openParen :: _ => true
  | .mark .path :: _ => true
  | _ => false

/-- Whether the tokens go on an operand: as a name, or with a part of it. -/
def extendsOperand : List Token → Bool
  | .mark .dot :: _ => true
  | .mark .openBracket :: _ => true
  | ts => extendsName ts

/-- Whether the tokens start with no operator that binds more tightly than a level. -/
def stopsAt (level : Nat) : List Token → Bool
  | .mark mark :: _ => (Operator.ofMark? mark).all fun operator => operator.level ≤ level
  | _ => true

/-- The signs that stand behind an expression other than an operator. -/
def Mark.isStop : Mark → Bool
  | .closeParen => true
  | .closeBracket => true
  | .openBrace => true
  | .closeBrace => true
  | .comma => true
  | .semicolon => true
  | .set => true
  | .add => true
  | .subtract => true
  | _ => false

variable {e : Expr} {fuel room level : Nat} {rest ts : List Token} {m : Mark}

/-- Behind a stop no operand goes on. -/
theorem extendsOperand_of_isStop (h : m.isStop = true) :
    extendsOperand (.mark m :: rest) = false := by
  cases m <;> first | rfl | cases h

/-- A stop is no operator. -/
theorem stopsAt_of_isStop (h : m.isStop = true) : stopsAt level (.mark m :: rest) = true := by
  cases m <;> first | rfl | cases h

/-- An operand does not go on as a name if it does not go on at all. -/
theorem extendsName_of_extendsOperand (h : extendsOperand ts = false) : extendsName ts = false := by
  unfold extendsOperand at h
  split at h
  · cases h
  · cases h
  · exact h

/-- Behind an operand that does not go on there are no parts. -/
theorem readParts_stop {r : Expr × List Token} (stop : extendsOperand rest = false)
    (h : readParts fuel room e rest = some r) : r = (e, rest) := by
  unfold readParts at h
  cases fuel with
  | zero => cases h
  | succ fuel =>
    simp only at h
    split at h
    · cases stop
    · cases stop
    · exact (Option.some.inj h).symm

/-- Where no operator binds more tightly, nothing is added to the left operand. -/
theorem readOperators_stop {r : Expr × List Token} (stop : stopsAt level rest = true)
    (h : readOperators fuel room level e rest = some r) : r = (e, rest) := by
  unfold readOperators at h
  cases fuel with
  | zero => cases h
  | succ fuel =>
    simp only at h
    split at h
    · next mark rest' =>
      split at h
      · exact (Option.some.inj h).symm
      · next operator found =>
        have low : operator.level ≤ level := by
          simp only [stopsAt, found] at stop
          simpa using stop
        rw [if_pos low] at h
        exact (Option.some.inj h).symm
    · exact (Option.some.inj h).symm

/-! ## What starts an expression -/

/-- Whether a token can start an expression. -/
def Token.startsExpr : Token → Bool
  | .word name => !statementWords.contains name
  | .mark .openParen => true
  | .mark .openBracket => true
  | .mark .openMap => true
  | .mark .not => true
  | .mark .minus => true
  | .mark _ => false
  | _ => true

/-- Tokens that start with one that can start an expression. -/
def StartsExpr (ts : List Token) : Prop := ∃ t rest, ts = t :: rest ∧ t.startsExpr = true

/-- More tokens behind. -/
theorem StartsExpr.append (h : StartsExpr ts) (rest : List Token) : StartsExpr (ts ++ rest) := by
  obtain ⟨t, tail, rfl, starts⟩ := h
  exact ⟨t, tail ++ rest, rfl, starts⟩

/-- A word with which an expression can start. -/
theorem isNameWord_spec {name : String} (h : isNameWord name = true) :
    name ≠ "true" ∧ name ≠ "false" ∧ statementWords.contains name = false := by
  unfold isNameWord at h
  simp only [Bool.and_eq_true, bne_iff_ne, Bool.not_eq_true'] at h
  exact ⟨h.1.1.2, h.1.2, h.2⟩

/-- A word with which an expression can start. -/
theorem startsExpr_word {name : String} (h : isNameWord name = true) (rest : List Token) :
    StartsExpr (.word name :: rest) := by
  refine ⟨_, _, rfl, ?_⟩
  show (!statementWords.contains name) = true
  rw [(isNameWord_spec h).2.2]
  rfl

/-- The tokens of a legible expression start as one. -/
theorem Expr.startsExpr : (e : Expr) → e.isLegible = true → StartsExpr e.tokens
  | .unit, _ => ⟨_, _, rfl, rfl⟩
  | .bool b, _ => by cases b <;> exact ⟨_, _, rfl, by decide⟩
  | .int n, _ => by
    unfold Expr.tokens intTokens
    split <;> exact ⟨_, _, rfl, rfl⟩
  | .float x, _ => by
    unfold Expr.tokens floatTokens
    split <;> exact ⟨_, _, rfl, rfl⟩
  | .str _, _ => ⟨_, _, rfl, rfl⟩
  | .var name, h => startsExpr_word h _
  | .constant space name, h => startsExpr_word (Bool.and_eq_true_iff.1 h).1 _
  | .array _ _, _ => ⟨_, _, rfl, rfl⟩
  | .object _ _, _ => ⟨_, _, rfl, rfl⟩
  | .call function _, h => startsExpr_word (Bool.and_eq_true_iff.1 h).1 _
  | .moduleCall space function _, h =>
    startsExpr_word (Bool.and_eq_true_iff.1 (Bool.and_eq_true_iff.1 h).1).1 _
  | .method receiver _ _, h => by
    unfold Expr.isLegible at h
    simp only [Bool.and_eq_true] at h
    exact (receiver.startsExpr h.1.1.2).append _
  | .field target _, h => by
    unfold Expr.isLegible at h
    simp only [Bool.and_eq_true] at h
    exact (target.startsExpr h.1.2).append _
  | .index target _, h => by
    unfold Expr.isLegible at h
    simp only [Bool.and_eq_true] at h
    exact (target.startsExpr h.1.2).append _
  | .not _, _ => ⟨_, _, rfl, rfl⟩
  | .negate _, _ => ⟨_, _, rfl, rfl⟩
  | .binary _ left _, h => by
    unfold Expr.isLegible at h
    simp only [Bool.and_eq_true] at h
    exact (left.startsExpr h.1.2).append _
  | .paren _, _ => ⟨_, _, rfl, rfl⟩

/-! ## Operands and operators -/

/-- Reading an operand comes to reading the parts behind an expression. -/
def ReadsTarget (e : Expr) : Prop :=
  ∀ ⦃fuel room : Nat⦄ ⦃rest : List Token⦄ ⦃r : Expr × List Token⦄, extendsName rest = false →
    readOperand fuel room (e.tokens ++ rest) = some r →
      ∃ fuel', readParts fuel' room e.flat rest = some r

/-- Reading an operand gives an expression. -/
def ReadsOperand (e : Expr) : Prop :=
  ∀ ⦃fuel room : Nat⦄ ⦃rest : List Token⦄ ⦃r : Expr × List Token⦄, extendsOperand rest = false →
    readOperand fuel room (e.tokens ++ rest) = some r → r = (e.flat, rest)

/-- Reading operands and operators comes to reading the operators behind an expression. -/
def ReadsLevel (e : Expr) : Prop :=
  ∀ ⦃fuel room level : Nat⦄ ⦃rest : List Token⦄ ⦃r : Expr × List Token⦄, level < e.level →
    extendsOperand rest = false → stopsAt e.level rest = true →
      readLevel fuel room level (e.tokens ++ rest) = some r →
        ∃ fuel', readOperators fuel' room level e.flat rest = some r

/-- The tokens of an expression are read as the expression without its layout, if they are read as
anything. -/
structure Expr.Reads (e : Expr) : Prop where
  /-- In front of operators. -/
  level : ReadsLevel e
  /-- In front of no operators. -/
  operand : e.level = 6 → ReadsOperand e
  /-- In front of parts. -/
  target : e.isTarget = true → ReadsTarget e

/-- An expression is read where no operator and no part follows. -/
theorem Expr.Reads.expr (h : e.Reads) {r : Expr × List Token} (end' : extendsOperand rest = false)
    (stop : stopsAt 0 rest = true) (read : readExpr fuel room (e.tokens ++ rest) = some r) :
    r = (e.flat, rest) := by
  unfold readExpr at read
  cases fuel with
  | zero => cases read
  | succ fuel =>
    have positive : 0 < e.level := by
      unfold Expr.level
      split
      · next operator _ _ => cases operator <;> decide
      · decide
    have stop' : stopsAt e.level rest = true := by
      unfold stopsAt at stop ⊢
      split at stop
      · next mark _ =>
        cases found : Operator.ofMark? mark with
        | none => rfl
        | some operator =>
          rw [found] at stop
          have low : operator.level = 0 := by simpa using stop
          simp [low]
      · rfl
    obtain ⟨fuel', all⟩ := h.level positive end' stop' read
    exact readOperators_stop stop all

/-- An operand is read in front of operators. -/
theorem ReadsOperand.readsLevel (h : ReadsOperand e) : ReadsLevel e := by
  intro fuel room level rest r _ end' _ read
  unfold readLevel at read
  cases fuel with
  | zero => cases read
  | succ fuel =>
    simp only at read
    cases first : readOperand fuel room (e.tokens ++ rest) with
    | none =>
      rw [first] at read
      cases read
    | some first' =>
      rw [first] at read
      rw [h end' first] at read
      exact ⟨fuel, read⟩

/-- An expression behind which no part can stand. -/
theorem Expr.Reads.of_operand (h : ReadsOperand e) (plain : e.isTarget = false) : e.Reads :=
  ⟨h.readsLevel, fun _ => h, fun target => by
    rw [plain] at target
    cases target⟩

/-- An expression behind which parts can stand. -/
theorem Expr.Reads.of_target (h : ReadsTarget e) : e.Reads := by
  have operand : ReadsOperand e := by
    intro fuel room rest r end' read
    obtain ⟨fuel', parts⟩ := h (extendsName_of_extendsOperand end') read
    exact readParts_stop end' parts
  exact ⟨operand.readsLevel, fun _ => operand, fun _ => h⟩

/-! ## Items between brackets -/

/-- No stop starts an expression. -/
theorem startsExpr_of_isStop (h : m.isStop = true) : (Token.mark m).startsExpr = false := by
  cases m <;> first | rfl | cases h

/-- What starts an expression is no stop. -/
theorem expect_of_startsExpr (starts : StartsExpr ts) (stop : m.isStop = true) :
    expect m ts = none := by
  obtain ⟨t, rest, rfl, first⟩ := starts
  unfold expect
  split
  · next found ts' same =>
    obtain ⟨rfl, rfl⟩ := List.cons.inj same
    have other : found ≠ m := by
      rintro rfl
      rw [startsExpr_of_isStop stop] at first
      cases first
    rw [if_neg other]
  · rfl

/-- The sign that is expected. -/
theorem expect_self (m : Mark) (rest : List Token) : expect m (.mark m :: rest) = some rest := by
  show (if m = m then some rest else none) = some rest
  rw [if_pos rfl]

/-- Items between commas are read up to the closing bracket. -/
theorem readItems_between {close : Mark} (closes : close = .closeParen ∨ close = .closeBracket)
    {items : List Expr} (reads : ∀ item ∈ items, item.Reads)
    (starts : ∀ item ∈ items, StartsExpr item.tokens) {r : List Expr × List Token}
    (h : readItems fuel room close
      (between (Expr.tokensOfItems items) ++ .mark close :: rest) = some r) :
    r = (Expr.flatItems items, rest) := by
  have stop : close.isStop = true := by rcases closes with rfl | rfl <;> rfl
  have comma : close ≠ .comma := by rcases closes with rfl | rfl <;> decide
  induction items generalizing fuel r with
  | nil =>
    unfold readItems at h
    cases fuel with
    | zero => cases h
    | succ fuel =>
      have found : expect close (between (Expr.tokensOfItems []) ++ .mark close :: rest) =
        some rest := expect_self close rest
      rw [found] at h
      exact (Option.some.inj h).symm
  | cons item items ih =>
    have first := reads item List.mem_cons_self
    have start := starts item List.mem_cons_self
    unfold readItems at h
    cases fuel with
    | zero => cases h
    | succ fuel =>
      cases items with
      | nil =>
        -- what starts an expression does not close the list
        have none : expect close (item.tokens ++ .mark close :: rest) = none :=
          expect_of_startsExpr (start.append _) stop
        simp only [Expr.tokensOfItems, between, none] at h
        cases read : readExpr fuel room (item.tokens ++ .mark close :: rest) with
        | none =>
          rw [read] at h
          cases h
        | some r' =>
          have e := first.expr (extendsOperand_of_isStop stop) (stopsAt_of_isStop stop) read
          subst e
          rw [read] at h
          split at h
          · next none' => cases none'
          · next same =>
            simp only [Option.some.injEq, Prod.mk.injEq, List.cons.injEq, Token.mark.injEq] at same
            exact absurd same.2.1 comma
          · next same =>
            cases same
            rw [expect_self] at h
            exact (Option.some.inj h).symm
      | cons item' items =>
        -- nor does it in front of a comma
        have none : expect close
            (item.tokens ++ .mark .comma :: between (Expr.tokensOfItems (item' :: items)) ++
              .mark close :: rest) = none := by
          rw [List.append_assoc]
          exact expect_of_startsExpr (start.append _) stop
        have tokens : between (Expr.tokensOfItems (item :: item' :: items)) =
          item.tokens ++ .mark .comma :: between (Expr.tokensOfItems (item' :: items)) := rfl
        simp only [tokens, none] at h
        rw [List.append_assoc, List.cons_append] at h
        cases read : readExpr fuel room (item.tokens ++ .mark .comma ::
            (between (Expr.tokensOfItems (item' :: items)) ++ .mark close :: rest)) with
        | none =>
          rw [read] at h
          cases h
        | some r' =>
          have e := first.expr (extendsOperand_of_isStop rfl) (stopsAt_of_isStop rfl) read
          subst e
          rw [read] at h
          obtain ⟨r', more, rfl⟩ := Option.map_eq_some_iff.1 h
          have e := ih (fun i m => reads i (List.mem_cons_of_mem _ m))
            (fun i m => starts i (List.mem_cons_of_mem _ m)) more
          subst e
          rfl

/-- The key of an entry. -/
theorem readKey_keyToken (key : String) (rest : List Token) :
    readKey (keyToken key :: rest) = some (key, rest) := by
  unfold keyToken
  by_cases word : isIdentifier key = true
  · rw [if_pos word]
    show (if isReserved key then none else some (key, rest)) = some (key, rest)
    rw [isReserved_of_isIdentifier word]
    rfl
  · rw [if_neg word]
    rfl

/-- Reading entries from one on. -/
theorem readEntries_cons {seen : List String} {key : String} {r : List (String × Expr) × List Token}
    (h : readEntries fuel room seen (keyToken key :: .mark .colon :: ts) = some r) :
    ∃ fuel', (match readExpr fuel' room ts with
      | none => none
      | some (e, .mark .comma :: ts) =>
        (readEntries fuel' room (key :: seen) ts).map fun (entries, ts) => ((key, e) :: entries, ts)
      | some (e, ts) => (expect .closeBrace ts).map fun ts => ([(key, e)], ts)) = some r := by
  unfold readEntries at h
  cases fuel with
  | zero => cases h
  | succ fuel =>
    simp only at h
    split at h
    · next same =>
      have first := (List.cons.inj same).1
      unfold keyToken at first
      split at first <;> cases first
    · rw [readKey_keyToken] at h
      simp only [Option.bind_eq_bind, Option.bind_some] at h
      split at h
      · cases h
      · exact ⟨fuel, h⟩

/-- Entries between commas are read up to the closing brace. -/
theorem readEntries_between {entries : List (String × Expr)} (reads : ∀ p ∈ entries, p.2.Reads)
    {seen : List String} {r : List (String × Expr) × List Token}
    (h : readEntries fuel room seen
      (between (Expr.tokensOfEntries entries) ++ .mark .closeBrace :: rest) = some r) :
    r = (Expr.flatEntries entries, rest) := by
  induction entries generalizing fuel seen r with
  | nil =>
    unfold readEntries at h
    cases fuel with
    | zero => cases h
    | succ fuel => exact (Option.some.inj h).symm
  | cons entry entries ih =>
    obtain ⟨key, e⟩ := entry
    have first : e.Reads := reads (key, e) List.mem_cons_self
    -- the last entry has a brace behind it, any other one a comma
    cases entries with
    | nil =>
      have tokens : between (Expr.tokensOfEntries [(key, e)]) ++ .mark .closeBrace :: rest =
        keyToken key :: .mark .colon :: (e.tokens ++ .mark .closeBrace :: rest) := rfl
      rw [tokens] at h
      obtain ⟨fuel', h⟩ := readEntries_cons h
      cases read : readExpr fuel' room (e.tokens ++ .mark .closeBrace :: rest) with
      | none =>
        rw [read] at h
        cases h
      | some r' =>
        have same := first.expr (extendsOperand_of_isStop rfl) (stopsAt_of_isStop rfl) read
        subst same
        rw [read] at h
        exact (Option.some.inj h).symm
    | cons entry' entries =>
      have tokens : between (Expr.tokensOfEntries ((key, e) :: entry' :: entries)) ++
          Token.mark .closeBrace :: rest = keyToken key :: .mark .colon :: (e.tokens ++
            Token.mark .comma :: (between (Expr.tokensOfEntries (entry' :: entries)) ++
              Token.mark .closeBrace :: rest)) := by
        show (keyToken key :: .mark .colon :: e.tokens ++ Token.mark .comma :: _) ++ _ = _
        simp only [List.cons_append, List.append_assoc]
      rw [tokens] at h
      obtain ⟨fuel', h⟩ := readEntries_cons h
      cases read : readExpr fuel' room (e.tokens ++ .mark .comma ::
          (between (Expr.tokensOfEntries (entry' :: entries)) ++ .mark .closeBrace :: rest)) with
      | none =>
        rw [read] at h
        cases h
      | some r' =>
        have same := first.expr (extendsOperand_of_isStop rfl) (stopsAt_of_isStop rfl) read
        subst same
        rw [read] at h
        obtain ⟨r', more, rfl⟩ := Option.map_eq_some_iff.1 h
        have same := ih (fun p m => reads p (List.mem_cons_of_mem _ m)) more
        subst same
        rfl

end Pipewright.Script
