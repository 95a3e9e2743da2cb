import Pipewright.Proofs.Script.Blocks
import Pipewright.Proofs.Script.Expressions

/-! # Reading statements
The tokens of the statements of a legible block are read as the statements without remarks, empty
lines and layout, if they are read as anything. -/

namespace Pipewright.Script

open Script.Parser

variable {e : Expr} {stmt : Stmt} {stmts : List Stmt} {fuel room : Nat} {rest ts : List Token}
  {m : Mark}

/-! ## What starts a statement -/

/-- Whether a token can start a statement. -/
def Token.startsStmt : Token → Bool
  | .word name => name != "else" && name != "fn"
  | .mark .semicolon => false
  | .mark .closeBrace => false
  | _ => true

/-- Tokens that start with one that can start a statement. -/
def StartsStmt (ts : List Token) : Prop := ∃ t rest, ts = t :: rest ∧ t.startsStmt = true

/-- Tokens of a block from some statement on: another statement, or the brace that closes it. -/
def GoesOn (ts : List Token) : Prop := StartsStmt ts ∨ ∃ rest, ts = .mark .closeBrace :: rest

/-- What starts an expression starts a statement. -/
theorem StartsExpr.startsStmt (h : StartsExpr ts) : StartsStmt ts := by
  obtain ⟨t, rest, rfl, starts⟩ := h
  refine ⟨t, rest, rfl, ?_⟩
  cases t with
  | word name =>
    have plain : statementWords.contains name = false := by simpa [Token.startsExpr] using starts
    unfold Token.startsStmt
    rw [Bool.and_eq_true, bne_iff_ne, bne_iff_ne]
    constructor
    · rintro rfl
      exact absurd plain (by decide)
    · rintro rfl
      exact absurd plain (by decide)
  | mark m => cases m <;> first | rfl | cases starts
  | _ => rfl

/-- More tokens behind. -/
theorem StartsStmt.append (h : StartsStmt ts) (rest : List Token) : StartsStmt (ts ++ rest) := by
  obtain ⟨t, tail, rfl, starts⟩ := h
  exact ⟨t, tail ++ rest, rfl, starts⟩

/-- The tokens of the place of an assignment start as an expression. -/
theorem Stmt.startsStmt : (stmt : Stmt) → stmt.isLegible = true → stmt.isSilent = false →
    StartsStmt stmt.tokens
  | .declare _ none, _, _ => ⟨_, _, rfl, by decide⟩
  | .declare _ (some _), _, _ => ⟨_, _, rfl, by decide⟩
  | .assign place _ _, h, _ => by
    unfold Stmt.isLegible at h
    rw [Bool.and_eq_true] at h
    exact (place.expr.startsExpr h.1).startsStmt.append _
  | .branch _ _, _, _ => ⟨_, _, rfl, by decide⟩
  | .repeatWhile _ _, _, _ => ⟨_, _, rfl, by decide⟩
  | .repeatForever _, _, _ => ⟨_, _, rfl, by decide⟩
  | .forEach _ _ _, _, _ => ⟨_, _, rfl, by decide⟩
  | .leaveLoop, _, _ => ⟨_, _, rfl, by decide⟩
  | .nextRound, _, _ => ⟨_, _, rfl, by decide⟩
  | .leaveFunction none, _, _ => ⟨_, _, rfl, by decide⟩
  | .leaveFunction (some _), _, _ => ⟨_, _, rfl, by decide⟩
  | .raise _, _, _ => ⟨_, _, rfl, by decide⟩
  | .attempt _ _ _, _, _ => ⟨_, _, rfl, by decide⟩
  | .useModule _ _, _, _ => ⟨_, _, rfl, by decide⟩
  | .run e, h, _ => by
    unfold Stmt.isLegible at h
    exact (e.startsExpr h).startsStmt.append _
  | .value e, h, _ => by
    unfold Stmt.isLegible at h
    exact (e.startsExpr h).startsStmt
  | .note _, _, silent => by cases silent
  | .gap, _, silent => by cases silent

/-- Remarks and empty lines have no tokens. -/
theorem Stmt.tokens_of_isSilent (h : stmt.isSilent = true) : stmt.tokens = [] := by
  cases stmt <;> first | rfl | cases h

/-- Either a block is nothing but remarks and empty lines, or its tokens start a statement. -/
theorem nothing_or_startsStmt (legible : Stmt.areLegible stmts = true) :
    (Stmt.tokensOfBlock stmts = [] ∧ Stmt.flatBlock stmts = []) ∨
      StartsStmt (Stmt.tokensOfBlock stmts) := by
  induction stmts with
  | nil => exact .inl ⟨rfl, rfl⟩
  | cons stmt stmts ih =>
    unfold Stmt.areLegible at legible
    rw [Bool.and_eq_true, Bool.and_eq_true] at legible
    unfold Stmt.tokensOfBlock
    cases silent : stmt.isSilent with
    | true =>
      rw [Stmt.tokens_of_isSilent silent, Stmt.flatBlock_of_isSilent silent]
      exact ih legible.2
    | false => exact .inr ((stmt.startsStmt legible.1.1 silent).append _)

/-- Whatever is left of a block starts a statement or closes the block. -/
theorem goesOn_block (legible : Stmt.areLegible stmts = true) :
    GoesOn (Stmt.tokensOfBlock stmts ++ .mark .closeBrace :: rest) := by
  rcases nothing_or_startsStmt legible with ⟨nothing, -⟩ | starts
  · rw [nothing]
    exact .inr ⟨rest, rfl⟩
  · exact .inl (starts.append _)

/-! ## Statements one by one -/

/-- A statement as it is read without the semicolon behind it. -/
def Stmt.bare : Stmt → Stmt
  | .run e => .value e.flat
  | stmt => stmt.flat

/-- The tokens of a statement are read as the statement, if they are read as anything. -/
inductive Stmt.Reads (stmt : Stmt) : Prop where
  /-- A statement that a semicolon ends. -/
  | ended (core : List Token) (tokens : stmt.tokens = core ++ [.mark .semicolon])
    (back : withSemicolon stmt.bare = stmt.flat)
    (h : ∀ ⦃fuel room : Nat⦄ ⦃rest : List Token⦄ ⦃r : Stmt × List Token⦄,
      readStmt fuel room (core ++ .mark .semicolon :: rest) = some r →
        r = (stmt.bare, .mark .semicolon :: rest))
  /-- A statement that ends with a block. -/
  | block (ends : endsWithBlock stmt.flat = true)
    (h : ∀ ⦃fuel room : Nat⦄ ⦃rest : List Token⦄ ⦃r : Stmt × List Token⦄, GoesOn rest →
      readStmt fuel room (stmt.tokens ++ rest) = some r → r = (stmt.flat, rest))
  /-- An expression at the end of a block. -/
  | last (value : stmt.isValue = true)
    (h : ∀ ⦃fuel room : Nat⦄ ⦃rest : List Token⦄ ⦃r : Stmt × List Token⦄,
      readStmt fuel room (stmt.tokens ++ .mark .closeBrace :: rest) = some r →
        r = (stmt.flat, .mark .closeBrace :: rest))

/-- The tokens of a block are read as its statements, if they are read as anything. -/
def ReadsBlock (stmts : List Stmt) : Prop :=
  ∀ ⦃fuel room : Nat⦄ ⦃rest : List Token⦄ ⦃r : List Stmt × List Token⦄,
    readStmts fuel room (Stmt.tokensOfBlock stmts ++ .mark .closeBrace :: rest) = some r →
      r = (Stmt.flatBlock stmts, rest)

/-- A block in braces is read. -/
theorem ReadsBlock.block (h : ReadsBlock stmts) {r : List Stmt × List Token}
    (read : readBlock fuel room
      (.mark .openBrace :: (Stmt.tokensOfBlock stmts ++ .mark .closeBrace :: rest)) = some r) :
    r = (Stmt.flatBlock stmts, rest) := by
  unfold readBlock at read
  cases fuel with
  | zero => cases read
  | succ fuel =>
    cases room with
    | zero => cases read
    | succ room => exact h read

/-- What starts an expression is no word that starts a statement. -/
theorem Token.ne_word_of_startsExpr {t : Token} (starts : t.startsExpr = true)
    (word : String) (starter : statementWords.contains word = true) : t ≠ .word word := by
  rintro rfl
  have plain : (!statementWords.contains word) = true := starts
  rw [starter] at plain
  cases plain

/-- What starts with an expression is read as a statement without a block. -/
theorem readStmt_simple (starts : StartsExpr ts) :
    readStmt (fuel + 1) room ts = readSimple fuel room ts := by
  obtain ⟨t, rest, rfl, first⟩ := starts
  have words := Token.ne_word_of_startsExpr first
  conv => lhs; unfold readStmt
  split
  · next same => exact absurd (List.cons.inj same).1 (words _ (by decide))
  · next same => exact absurd (List.cons.inj same).1 (words _ (by decide))
  · next same => exact absurd (List.cons.inj same).1 (words _ (by decide))
  · next same => exact absurd (List.cons.inj same).1 (words _ (by decide))
  · next same => exact absurd (List.cons.inj same).1 (words _ (by decide))
  · rfl

/-- What starts with an expression is read with that expression first. -/
theorem readSimple_expr (starts : StartsExpr ts) :
    readSimple fuel room ts =
      match readExpr fuel room ts with
      | none => none
      | some (e, .mark mark :: rest) =>
        match Assignment.ofMark? mark with
        | none => some (.value e, .mark mark :: rest)
        | some assignment => do
          let place ← e.place?
          let (value, rest) ← readExpr fuel room rest
          return (.assign place assignment value, rest)
      | some (e, rest) => some (.value e, rest) := by
  obtain ⟨t, rest, rfl, first⟩ := starts
  have words := Token.ne_word_of_startsExpr first
  unfold readSimple
  split
  · next same => exact absurd (List.cons.inj same).1 (words _ (by decide))
  · next same => exact absurd (List.cons.inj same).1 (words _ (by decide))
  · next same => exact absurd (List.cons.inj same).1 (words _ (by decide))
  · next same => exact absurd (List.cons.inj same).1 (words _ (by decide))
  · next same => exact absurd (List.cons.inj same).1 (words _ (by decide))
  · next same => exact absurd (List.cons.inj same).1 (words _ (by decide))
  · rfl

/-- A statement is read with some fuel left for its parts. -/
theorem exists_fuel_of_readStmt {r : Stmt × List Token} (h : readStmt fuel room ts = some r) :
    ∃ fuel', fuel = fuel' + 1 := by
  cases fuel with
  | zero =>
    unfold readStmt at h
    cases h
  | succ fuel => exact ⟨fuel, rfl⟩

/-- An expression in front of a stop that is no assignment is a statement. -/
theorem readStmt_value (legible : e.isLegible = true) (stop : m.isStop = true)
    (other : Assignment.ofMark? m = none) {r : Stmt × List Token}
    (h : readStmt fuel room (e.tokens ++ .mark m :: rest) = some r) :
    r = (.value e.flat, .mark m :: rest) := by
  have starts := (e.startsExpr legible).append (.mark m :: rest)
  obtain ⟨fuel, rfl⟩ := exists_fuel_of_readStmt h
  rw [readStmt_simple starts, readSimple_expr starts] at h
  cases found : readExpr fuel room (e.tokens ++ .mark m :: rest) with
  | none =>
    rw [found] at h
    cases h
  | some r' =>
    cases (e.reads legible).expr (extendsOperand_of_isStop stop) (stopsAt_of_isStop stop) found
    rw [found] at h
    simp only [other] at h
    exact (Option.some.inj h).symm

/-- Steps behind an expression that stands for a place. -/
theorem place?_foldl {path : List Accessor} {target : Expr} {q : Place}
    (h : target.flat.place? = some q) :
    (path.foldl (fun target step =>
      match step with
      | .field name => .field target name
      | .index key => .index target key) target).flat.place? =
        some ⟨q.root, q.path ++ path.map Accessor.flat⟩ := by
  -- each step goes onto the end of the path, so the induction is for any place to start from
  induction path generalizing target q with
  | nil =>
    rw [List.foldl_nil, List.map_nil, List.append_nil]
    exact h
  | cons step path ih =>
    rw [List.foldl_cons, List.map_cons]
    cases step with
    | field name =>
      have next : (Expr.field target name).flat.place? =
          some ⟨q.root, q.path ++ [Accessor.field name]⟩ := by
        show target.flat.place?.map _ = _
        rw [h]
        rfl
      rw [ih next]
      simp [Accessor.flat]
    | index key =>
      have next : (Expr.index target key).flat.place? =
          some ⟨q.root, q.path ++ [.index key.flat]⟩ := by
        show target.flat.place?.map _ = _
        rw [h]
        rfl
      rw [ih next]
      simp [Accessor.flat]

/-- The expression of a place stands for it. -/
theorem place?_expr (place : Place) : place.expr.flat.place? = some place.flat :=
  @place?_foldl place.path (.var place.root) ⟨place.root, []⟩ rfl

/-- An assignment is a statement. -/
theorem readStmt_assign {place : Place} {assignment : Assignment}
    (legible : place.expr.isLegible = true) (legible' : e.isLegible = true)
    {r : Stmt × List Token}
    (h : readStmt fuel room
      (place.expr.tokens ++ .mark assignment.mark :: (e.tokens ++ .mark .semicolon :: rest)) =
        some r) :
    r = (.assign place.flat assignment e.flat, .mark .semicolon :: rest) := by
  have stop : assignment.mark.isStop = true := by cases assignment <;> rfl
  have same : Assignment.ofMark? assignment.mark = some assignment := by cases assignment <;> rfl
  have starts := (place.expr.startsExpr legible).append
    (.mark assignment.mark :: (e.tokens ++ .mark .semicolon :: rest))
  obtain ⟨fuel, rfl⟩ := exists_fuel_of_readStmt h
  rw [readStmt_simple starts, readSimple_expr starts] at h
  cases found : readExpr fuel room
      (place.expr.tokens ++ .mark assignment.mark :: (e.tokens ++ .mark .semicolon :: rest)) with
  | none =>
    rw [found] at h
    cases h
  | some r' =>
    cases (place.expr.reads legible).expr (extendsOperand_of_isStop stop) (stopsAt_of_isStop stop)
      found
    rw [found] at h
    simp only [same, place?_expr, Option.bind_eq_bind, Option.bind_some] at h
    cases found' : readExpr fuel room (e.tokens ++ .mark .semicolon :: rest) with
    | none =>
      rw [found'] at h
      cases h
    | some r' =>
      cases (e.reads legible').expr (extendsOperand_of_isStop rfl) (stopsAt_of_isStop rfl) found'
      rw [found'] at h
      exact (Option.some.inj h).symm

/-- A statement that a word other than those before blocks starts. -/
theorem readStmt_word {word : String}
    (plain : ["if", "while", "loop", "for", "try"].contains word = false) {r : Stmt × List Token}
    (h : readStmt fuel room (.word word :: ts) = some r) :
    ∃ fuel', readSimple fuel' room (.word word :: ts) = some r := by
  have words : ∀ name, ["if", "while", "loop", "for", "try"].contains name = true →
      word ≠ name := by
    rintro name block rfl
    rw [block] at plain
    cases plain
  obtain ⟨fuel, rfl⟩ := exists_fuel_of_readStmt h
  unfold readStmt at h
  simp only at h
  split at h
  · next same => exact absurd (Token.word.inj (List.cons.inj same).1) (words _ (by decide))
  · next same => exact absurd (Token.word.inj (List.cons.inj same).1) (words _ (by decide))
  · next same => exact absurd (Token.word.inj (List.cons.inj same).1) (words _ (by decide))
  · next same => exact absurd (Token.word.inj (List.cons.inj same).1) (words _ (by decide))
  · next same => exact absurd (Token.word.inj (List.cons.inj same).1) (words _ (by decide))
  · exact ⟨fuel, h⟩

/-- An expression behind a word is read up to the semicolon. -/
theorem readOptional_expr (legible : e.isLegible = true) {r : Option Expr × List Token}
    (h : readOptional fuel room (e.tokens ++ .mark .semicolon :: rest) = some r) :
    r = (some e.flat, .mark .semicolon :: rest) := by
  obtain ⟨t, tail, tokens, starts⟩ := e.startsExpr legible
  have found : (readExpr fuel room (e.tokens ++ .mark .semicolon :: rest)).map
      (fun (e, ts) => (some e, ts)) = some r := by
    rw [tokens] at h ⊢
    unfold readOptional at h
    split at h
    · next same => cases same
    · next same =>
      rw [(List.cons.inj same).1] at starts
      cases starts
    · next same =>
      rw [(List.cons.inj same).1] at starts
      cases starts
    · exact h
  obtain ⟨r', read, rfl⟩ := Option.map_eq_some_iff.1 found
  cases (e.reads legible).expr (extendsOperand_of_isStop rfl) (stopsAt_of_isStop rfl) read
  rfl

/-- An expression in front of a block is read. -/
theorem readExpr_head (legible : e.isLegible = true) {r : Expr × List Token}
    (h : readExpr fuel room (e.tokens ++ .mark .openBrace :: rest) = some r) :
    r = (e.flat, .mark .openBrace :: rest) :=
  (e.reads legible).expr (extendsOperand_of_isStop rfl) (stopsAt_of_isStop rfl) h

/-! ## Statements without blocks -/

namespace Stmt.Reads

/-- A variable that is declared without a value. -/
theorem declare_none (name : String) : (Stmt.declare name none).Reads :=
  .ended [.word "let", .word name] rfl rfl fun fuel room rest r read => by
    simp only [List.cons_append, List.nil_append] at read
    obtain ⟨fuel', simple⟩ := readStmt_word (by decide) read
    unfold readSimple at simple
    simp only at simple
    cases named : readName (.word name :: .mark .semicolon :: rest) with
    | none =>
      rw [named] at simple
      cases simple
    | some r' =>
      cases readName_word named
      rw [named] at simple
      exact (Option.some.inj simple).symm

/-- A variable that is declared with a value. -/
theorem declare_some (name : String) (legible : e.isLegible = true) :
    (Stmt.declare name (some e)).Reads :=
  .ended (.word "let" :: .word name :: .mark .set :: e.tokens) rfl rfl
    fun fuel room rest r read => by
      simp only [List.cons_append] at read
      obtain ⟨fuel', simple⟩ := readStmt_word (by decide) read
      unfold readSimple at simple
      simp only at simple
      cases named : readName
          (.word name :: .mark .set :: (e.tokens ++ .mark .semicolon :: rest)) with
      | none =>
        rw [named] at simple
        cases simple
      | some r' =>
        cases readName_word named
        rw [named] at simple
        obtain ⟨r', found, rfl⟩ := Option.map_eq_some_iff.1 simple
        cases (e.reads legible).expr (extendsOperand_of_isStop rfl) (stopsAt_of_isStop rfl) found
        rfl

/-- An assignment. -/
theorem assign {place : Place} (assignment : Assignment) (legible : place.expr.isLegible = true)
    (legible' : e.isLegible = true) : (Stmt.assign place assignment e).Reads :=
  .ended (place.expr.tokens ++ Token.mark assignment.mark :: e.tokens)
    (by
      show place.expr.tokens ++ Token.mark assignment.mark ::
        (e.tokens ++ [Token.mark .semicolon]) = _
      simp only [List.append_assoc, List.cons_append])
    rfl fun fuel room rest r read => by
      rw [List.append_assoc, List.cons_append] at read
      exact readStmt_assign legible legible' read

/-- A word that is a statement. -/
theorem leaveLoop : Stmt.leaveLoop.Reads :=
  .ended [.word "break"] rfl rfl fun fuel room rest r read => by
    obtain ⟨fuel', simple⟩ := readStmt_word (by decide) read
    exact (Option.some.inj simple).symm

/-- A word that is a statement. -/
theorem nextRound : Stmt.nextRound.Reads :=
  .ended [.word "continue"] rfl rfl fun fuel room rest r read => by
    obtain ⟨fuel', simple⟩ := readStmt_word (by decide) read
    exact (Option.some.inj simple).symm

/-- A function that is left without a value. -/
theorem leaveFunction_none : (Stmt.leaveFunction none).Reads :=
  .ended [.word "return"] rfl rfl fun fuel room rest r read => by
    obtain ⟨fuel', simple⟩ := readStmt_word (by decide) read
    exact (Option.some.inj simple).symm

/-- A function that is left with a value. -/
theorem leaveFunction_some (legible : e.isLegible = true) :
    (Stmt.leaveFunction (some e)).Reads :=
  .ended (.word "return" :: e.tokens) rfl rfl fun fuel room rest r read => by
    obtain ⟨fuel', simple⟩ := readStmt_word (by decide) read
    obtain ⟨r', found, rfl⟩ := Option.map_eq_some_iff.1 simple
    cases readOptional_expr legible found
    rfl

/-- A value that is raised. -/
theorem raise (legible : e.isLegible = true) : (Stmt.raise e).Reads :=
  .ended (.word "throw" :: e.tokens) rfl rfl fun fuel room rest r read => by
    obtain ⟨fuel', simple⟩ := readStmt_word (by decide) read
    obtain ⟨r', found, rfl⟩ := Option.map_eq_some_iff.1 simple
    cases readOptional_expr legible found
    rfl

/-- A module that becomes known. -/
theorem useModule (path name : String) : (Stmt.useModule path name).Reads :=
  .ended [.word "import", .text path, .word "as", .word name] rfl rfl
    fun fuel room rest r read => by
      obtain ⟨fuel', simple⟩ := readStmt_word (by decide) read
      obtain ⟨r', found, rfl⟩ := Option.map_eq_some_iff.1 simple
      cases readName_word found
      rfl

/-- An expression with a semicolon behind it. -/
theorem run (legible : e.isLegible = true) : (Stmt.run e).Reads :=
  .ended e.tokens rfl rfl fun _ _ _ _ read => readStmt_value legible rfl rfl read

/-- The expression at the end of a block. -/
theorem value (legible : e.isLegible = true) : (Stmt.value e).Reads :=
  .last rfl fun _ _ _ _ read => readStmt_value legible rfl rfl read

end Stmt.Reads

/-! ## Blocks -/

/-- Statements that are all remarks or empty lines have no tokens and are nothing. -/
theorem silent_block (h : stmts.all Stmt.isSilent = true) :
    Stmt.tokensOfBlock stmts = [] ∧ Stmt.flatBlock stmts = [] := by
  induction stmts with
  | nil => exact ⟨rfl, rfl⟩
  | cons stmt stmts ih =>
    rw [List.all_cons, Bool.and_eq_true] at h
    obtain ⟨tokens, flat⟩ := ih h.2
    refine ⟨?_, ?_⟩
    · unfold Stmt.tokensOfBlock
      rw [Stmt.tokens_of_isSilent h.1, tokens]
      rfl
    · rw [Stmt.flatBlock_of_isSilent h.1, flat]

/-- Where a statement starts, one is read first. -/
theorem readStmts_stmt (starts : StartsStmt ts) :
    readStmts (fuel + 1) room ts =
      match readStmt fuel room ts with
      | none => none
      | some (stmt, .mark .semicolon :: ts) =>
        (readStmts fuel room ts).map fun (stmts, ts) => (withSemicolon stmt :: stmts, ts)
      | some (stmt, .mark .closeBrace :: ts) => some ([stmt], ts)
      | some (stmt, ts) =>
        if endsWithBlock stmt then
          (readStmts fuel room ts).map fun (stmts, ts) => (stmt :: stmts, ts)
        else none := by
  obtain ⟨t, tail, rfl, starts⟩ := starts
  conv => lhs; unfold readStmts
  split
  · next same =>
    rw [(List.cons.inj same).1] at starts
    cases starts
  · next same =>
    rw [(List.cons.inj same).1] at starts
    cases starts
  · rfl

/-- Where statements are read from the start of one, that one is read with the fuel that is left. -/
theorem exists_readStmt (starts : StartsStmt ts) {r : List Stmt × List Token}
    (h : readStmts fuel room ts = some r) :
    ∃ fuel' r', fuel = fuel' + 1 ∧ readStmt fuel' room ts = some r' := by
  cases fuel with
  | zero =>
    unfold readStmts at h
    cases h
  | succ fuel =>
    rw [readStmts_stmt starts] at h
    cases found : readStmt fuel room ts with
    | none =>
      rw [found] at h
      cases h
    | some r' => exact ⟨fuel, r', rfl, found⟩

/-- A statement that ends with a block needs nothing between itself and the next one. -/
theorem readStmts_block (starts : StartsStmt ts) {stmt : Stmt} {next : List Token}
    (found : readStmt fuel room ts = some (stmt, next)) (ends : endsWithBlock stmt = true)
    (more : StartsStmt next) :
    readStmts (fuel + 1) room ts =
      (readStmts fuel room next).map fun (stmts, ts) => (stmt :: stmts, ts) := by
  obtain ⟨t, tail, rfl, start⟩ := more
  rw [readStmts_stmt starts, found]
  split
  · cases ‹_›
  · next same =>
    cases same
    cases start
  · next same =>
    cases same
    cases start
  · next same =>
    cases same
    rw [if_pos ends]

/-- Statements are read one after another up to the closing brace. -/
theorem ReadsBlock.of_reads (legible : Stmt.areLegible stmts = true)
    (reads : ∀ stmt ∈ stmts, stmt.isSilent = false → stmt.Reads) : ReadsBlock stmts := by
  induction stmts with
  | nil =>
    intro fuel room rest r read
    unfold readStmts at read
    cases fuel with
    | zero => cases read
    | succ fuel => exact (Option.some.inj read).symm
  | cons stmt stmts ih =>
    unfold Stmt.areLegible at legible
    rw [Bool.and_eq_true, Bool.and_eq_true] at legible
    have others := ih legible.2 fun stmt m => reads stmt (List.mem_cons_of_mem _ m)
    intro fuel room rest r read
    unfold Stmt.tokensOfBlock at read
    cases silent : stmt.isSilent with
    | true =>
      rw [Stmt.tokens_of_isSilent silent] at read
      rw [Stmt.flatBlock_of_isSilent silent]
      exact others read
    | false =>
      rw [Stmt.flatBlock_of_not_isSilent silent]
      rw [List.append_assoc] at read
      have starts := (stmt.startsStmt legible.1.1 silent).append
        (Stmt.tokensOfBlock stmts ++ .mark .closeBrace :: rest)
      obtain ⟨fuel, r', rfl, found⟩ := exists_readStmt starts read
      cases reads stmt List.mem_cons_self silent with
      | ended core tokens back h =>
        -- the block goes on behind the semicolon
        have same := h (by rwa [tokens, List.append_assoc] at found)
        rw [readStmts_stmt starts, found, same] at read
        obtain ⟨r', more, rfl⟩ := Option.map_eq_some_iff.1 read
        cases others more
        rw [← back]
      | last value h =>
        -- an expression is only legible as the last statement, so the brace comes next
        have nothing : stmts.all Stmt.isSilent = true := by
          have := legible.1.2
          rwa [value] at this
        obtain ⟨none, flat⟩ := silent_block nothing
        have same := h (by rwa [none] at found)
        rw [readStmts_stmt starts, found, same] at read
        rw [flat]
        exact (Option.some.inj read).symm
      | block ends h =>
        have same := h (goesOn_block legible.2) found
        subst same
        -- the brace comes next, or one more statement, which nothing has to separate
        rcases nothing_or_startsStmt legible.2 with ⟨none, flat⟩ | more
        · rw [readStmts_stmt starts, found, none] at read
          rw [flat]
          exact (Option.some.inj read).symm
        · rw [readStmts_block starts found ends (more.append _)] at read
          obtain ⟨r', found', rfl⟩ := Option.map_eq_some_iff.1 read
          cases others found'
          rfl

/-! ## Statements with blocks -/

/-- What goes on a block is no further branch. -/
theorem GoesOn.not_else (h : GoesOn rest) (ts : List Token) : rest ≠ .word "else" :: ts := by
  rintro rfl
  rcases h with ⟨t, tail, same, starts⟩ | ⟨tail, same⟩
  · cases same
    cases starts
  · cases same

/-- The branches of a statement are read, with what stands behind the last of them. -/
theorem readBranches_tokens {branches : List (Expr × List Stmt)} {otherwise : List Stmt}
    (some' : branches ≠ []) (legible : Stmt.areLegibleBranches branches = true)
    (bodies : ∀ branch ∈ branches, ReadsBlock branch.2) (other : ReadsBlock otherwise)
    (goesOn : GoesOn rest) {r : (List (Expr × List Stmt) × List Stmt) × List Token}
    (read : readBranches fuel room
      (Stmt.tokensOfBranches (if otherwise.isEmpty then []
        else .word "else" :: .mark .openBrace ::
          (Stmt.tokensOfBlock otherwise ++ [Token.mark .closeBrace])) branches ++ rest) = some r) :
    r = ((Stmt.flatBranches branches, Stmt.flatBlock otherwise), rest) := by
  induction branches generalizing fuel r with
  | nil => exact absurd rfl some'
  | cons branch branches ih =>
    obtain ⟨condition, body⟩ := branch
    unfold Stmt.areLegibleBranches at legible
    rw [Bool.and_eq_true, Bool.and_eq_true] at legible
    unfold Stmt.tokensOfBranches at read
    unfold readBranches at read
    cases fuel with
    | zero => cases read
    | succ fuel =>
      simp only [List.append_assoc, List.cons_append] at read
      obtain ⟨r₁, found, read⟩ := Option.bind_eq_some_iff.1 read
      cases readExpr_head legible.1.1 found
      obtain ⟨r₂, found', read⟩ := Option.bind_eq_some_iff.1 read
      cases (bodies _ List.mem_cons_self).block found'
      -- only behind the last condition is there a block for all others
      cases branches with
      | nil =>
        cases otherwise with
        | nil =>
          have done : some (([(condition.flat, Stmt.flatBlock body)], []), rest) = some r := by
            simp only [List.isEmpty_nil, if_true, List.nil_append] at read
            split at read
            · exact absurd rfl (goesOn.not_else _)
            · exact absurd rfl (goesOn.not_else _)
            · exact read
          exact (Option.some.inj done).symm
        | cons stmt stmts =>
          simp only [List.isEmpty_cons, List.isEmpty_nil, if_true, List.cons_append,
            List.append_assoc, List.nil_append, Bool.false_eq_true, if_false] at read
          obtain ⟨r₃, last, rfl⟩ := Option.map_eq_some_iff.1 read
          cases other.block last
          rfl
      | cons branch' branches =>
        simp only [List.isEmpty_cons, List.cons_append, Bool.false_eq_true, if_false] at read
        obtain ⟨r₃, others, rfl⟩ := Option.map_eq_some_iff.1 read
        cases ih (by simp) legible.2 (fun branch m => bodies branch (List.mem_cons_of_mem _ m))
          others
        rfl

namespace Stmt.Reads

/-- A choice between blocks. -/
theorem branch {branches : List (Expr × List Stmt)} {otherwise : List Stmt}
    (some' : branches ≠ []) (legible : Stmt.areLegibleBranches branches = true)
    (bodies : ∀ branch ∈ branches, ReadsBlock branch.2) (other : ReadsBlock otherwise) :
    (Stmt.branch branches otherwise).Reads :=
  .block rfl fun fuel room rest r goesOn read => by
    unfold Stmt.tokens at read
    rw [List.cons_append] at read
    unfold readStmt at read
    cases fuel with
    | zero => cases read
    | succ fuel =>
      obtain ⟨r', found, rfl⟩ := Option.map_eq_some_iff.1 read
      cases readBranches_tokens some' legible bodies other goesOn found
      rfl

/-- A block that runs as long as a condition holds. -/
theorem repeatWhile (legible : e.isLegible = true) (body : ReadsBlock stmts) :
    (Stmt.repeatWhile e stmts).Reads :=
  .block rfl fun fuel room rest r _ read => by
    unfold Stmt.tokens at read
    simp only [List.append_assoc, List.cons_append, List.nil_append] at read
    unfold readStmt at read
    cases fuel with
    | zero => cases read
    | succ fuel =>
      obtain ⟨r₁, found, read⟩ := Option.bind_eq_some_iff.1 read
      cases readExpr_head legible found
      obtain ⟨r₂, found', read⟩ := Option.bind_eq_some_iff.1 read
      cases body.block found'
      exact (Option.some.inj read).symm

/-- A block that runs without end. -/
theorem repeatForever (body : ReadsBlock stmts) : (Stmt.repeatForever stmts).Reads :=
  .block rfl fun fuel room rest r _ read => by
    unfold Stmt.tokens at read
    simp only [List.append_assoc, List.cons_append, List.nil_append] at read
    unfold readStmt at read
    cases fuel with
    | zero => cases read
    | succ fuel =>
      obtain ⟨r', found, rfl⟩ := Option.map_eq_some_iff.1 read
      cases body.block found
      rfl

/-- A block that runs for every item of an array. -/
theorem forEach (name : String) (legible : e.isLegible = true) (body : ReadsBlock stmts) :
    (Stmt.forEach name e stmts).Reads :=
  .block rfl fun fuel room rest r _ read => by
    unfold Stmt.tokens at read
    simp only [List.append_assoc, List.cons_append, List.nil_append] at read
    unfold readStmt at read
    cases fuel with
    | zero => cases read
    | succ fuel =>
      obtain ⟨r₁, named, read⟩ := Option.bind_eq_some_iff.1 read
      cases readName_word named
      obtain ⟨r₂, found, read⟩ := Option.bind_eq_some_iff.1 read
      cases found
      obtain ⟨r₃, found, read⟩ := Option.bind_eq_some_iff.1 read
      cases readExpr_head legible found
      obtain ⟨r₄, found', read⟩ := Option.bind_eq_some_iff.1 read
      cases body.block found'
      exact (Option.some.inj read).symm

/-- A block with another one for its failure. -/
theorem attempt {body handler : List Stmt} (name : Option String) (first : ReadsBlock body)
    (second : ReadsBlock handler) : (Stmt.attempt body name handler).Reads :=
  .block rfl fun fuel room rest r _ read => by
    unfold Stmt.tokens at read
    simp only [List.append_assoc, List.cons_append, List.nil_append] at read
    unfold readStmt at read
    cases fuel with
    | zero => cases read
    | succ fuel =>
      obtain ⟨r₁, found, read⟩ := Option.bind_eq_some_iff.1 read
      cases first.block found
      obtain ⟨r₂, found, read⟩ := Option.bind_eq_some_iff.1 read
      cases found
      obtain ⟨r₃, found, read⟩ := Option.bind_eq_some_iff.1 read
      cases name with
      | none =>
        cases found
        obtain ⟨r₄, found, read⟩ := Option.bind_eq_some_iff.1 read
        cases second.block found
        exact (Option.some.inj read).symm
      | some name =>
        obtain ⟨r', named, found⟩ := Option.bind_eq_some_iff.1 found
        cases readName_word named
        cases found
        obtain ⟨r₄, found, read⟩ := Option.bind_eq_some_iff.1 read
        cases second.block found
        exact (Option.some.inj read).symm

end Stmt.Reads

/-! ## Every legible statement -/

mutual

/-- The tokens of a legible statement are read as the statement. -/
theorem Stmt.reads :
    (stmt : Stmt) → stmt.isLegible = true → stmt.isSilent = false → stmt.Reads
  | .declare name none, _, _ => .declare_none name
  | .declare name (some e), h, _ => by
    unfold Stmt.isLegible at h
    rw [Bool.and_eq_true] at h
    exact .declare_some name h.2
  | .assign place assignment e, h, _ => by
    unfold Stmt.isLegible at h
    rw [Bool.and_eq_true] at h
    exact .assign assignment h.1 h.2
  | .branch branches otherwise, h, _ => by
    unfold Stmt.isLegible at h
    simp only [Bool.and_eq_true, Bool.not_eq_true', List.isEmpty_eq_false_iff] at h
    exact .branch h.1.1 h.1.2 (Stmt.reads_branches branches h.1.2)
      (.of_reads h.2 (Stmt.reads_each otherwise h.2))
  | .repeatWhile condition body, h, _ => by
    unfold Stmt.isLegible at h
    rw [Bool.and_eq_true] at h
    exact .repeatWhile h.1 (.of_reads h.2 (Stmt.reads_each body h.2))
  | .repeatForever body, h, _ => by
    unfold Stmt.isLegible at h
    exact .repeatForever (.of_reads h (Stmt.reads_each body h))
  | .forEach name items body, h, _ => by
    unfold Stmt.isLegible at h
    rw [Bool.and_eq_true, Bool.and_eq_true] at h
    exact .forEach name h.1.2 (.of_reads h.2 (Stmt.reads_each body h.2))
  | .leaveLoop, _, _ => .leaveLoop
  | .nextRound, _, _ => .nextRound
  | .leaveFunction none, _, _ => .leaveFunction_none
  | .leaveFunction (some e), h, _ => by
    unfold Stmt.isLegible at h
    exact .leaveFunction_some h
  | .raise e, h, _ => by
    unfold Stmt.isLegible at h
    exact .raise h
  | .attempt body name handler, h, _ => by
    unfold Stmt.isLegible at h
    rw [Bool.and_eq_true, Bool.and_eq_true] at h
    exact .attempt name (.of_reads h.1.1 (Stmt.reads_each body h.1.1))
      (.of_reads h.2 (Stmt.reads_each handler h.2))
  | .useModule path name, _, _ => .useModule path name
  | .run e, h, _ => by
    unfold Stmt.isLegible at h
    exact .run h
  | .value e, h, _ => by
    unfold Stmt.isLegible at h
    exact .value h
  | .note _, _, silent => by cases silent
  | .gap, _, silent => by cases silent

/-- The tokens of each statement of a legible block are read as the statement. -/
theorem Stmt.reads_each : (stmts : List Stmt) → Stmt.areLegible stmts = true →
    ∀ stmt ∈ stmts, stmt.isSilent = false → stmt.Reads
  | [], _ => fun _ m => by cases m
  | stmt :: stmts, h => by
    unfold Stmt.areLegible at h
    rw [Bool.and_eq_true, Bool.and_eq_true] at h
    have first := Stmt.reads stmt h.1.1
    have others := Stmt.reads_each stmts h.2
    exact List.forall_mem_cons.2 ⟨first, others⟩

/-- The tokens of the block of each legible branch are read as its statements. -/
theorem Stmt.reads_branches : (branches : List (Expr × List Stmt)) →
    Stmt.areLegibleBranches branches = true → ∀ branch ∈ branches, ReadsBlock branch.2
  | [], _ => fun _ m => by cases m
  | (condition, body) :: branches, h => by
    unfold Stmt.areLegibleBranches at h
    rw [Bool.and_eq_true, Bool.and_eq_true] at h
    have first : ReadsBlock body := .of_reads h.1.2 (Stmt.reads_each body h.1.2)
    have others := Stmt.reads_branches branches h.2
    exact List.forall_mem_cons.2 ⟨first, others⟩

end

/-- The tokens of a legible block are read as its statements. -/
theorem Stmt.reads_block (h : Stmt.areLegible stmts = true) : ReadsBlock stmts :=
  .of_reads h (Stmt.reads_each stmts h)

end Pipewright.Script
