import Pipewright.Proofs.Script.Programs

/-! # Data in programs
Texts, the value that stands for nothing, and arrays and maps of such are always read, as long as
brackets are not nested too deeply: the fuel that the tokens of a program are given is enough. So is
the text of a function that returns data. -/

namespace Pipewright.Script

open Script.Parser

variable {e : Expr} {depth fuel room : Nat} {rest ts : List Token} {m : Mark}

/-- The tokens of an expression are read as the expression without its layout, in front of every sign
that ends it. This takes a number of brackets that may be opened inside each other. -/
def Expr.Parses (depth : Nat) (e : Expr) : Prop :=
  ∀ ⦃fuel room : Nat⦄ ⦃m : Mark⦄ ⦃rest : List Token⦄, 8 * e.tokens.length ≤ fuel → depth ≤ room →
    m.isStop = true →
      readExpr fuel room (e.tokens ++ .mark m :: rest) = some (e.flat, .mark m :: rest)

/-- More brackets may be opened than are. -/
theorem Expr.Parses.mono {depth' : Nat} (h : e.Parses depth) (le : depth ≤ depth') :
    e.Parses depth' :=
  fun _ _ _ _ enough roomy stop => h enough (Nat.le_trans le roomy) stop

/-! ## Operands -/

/-- Behind an operand that does not go on no part is read. -/
theorem readParts_of_extendsOperand (stop : extendsOperand rest = false) :
    readParts (fuel + 1) room e rest = some (e, rest) := by
  unfold readParts
  split
  · cases stop
  · cases stop
  · rfl

/-- Where no operator binds more tightly no operator is read. -/
theorem readOperators_of_stopsAt {level : Nat} (stop : stopsAt level rest = true) :
    readOperators (fuel + 1) room level e rest = some (e, rest) := by
  unfold readOperators
  split
  · next mark rest' =>
    split
    · rfl
    · next operator found =>
      simp only [stopsAt, found, Option.all_some, decide_eq_true_eq] at stop
      exact if_pos stop
  · rfl

/-- What starts with no sign is read without operators. -/
theorem readOperand_eq (plain : startsSigned ts = false) :
    readOperand (fuel + 1) room ts =
      match readPrimary fuel room ts with
      | none => none
      | some (e, ts) => readParts fuel room e ts := by
  unfold readOperand
  split
  · cases plain
  · cases plain
  · cases plain
  · cases plain
  · rfl

/-- An operand behind which nothing goes on is read as an expression. -/
theorem readExpr_of_primary (plain : startsSigned ts = false) (whole : extendsOperand rest = false)
    (stop : stopsAt 0 rest = true) (read : readPrimary (fuel + 1) room ts = some (e, rest)) :
    readExpr (fuel + 4) room ts = some (e, rest) := by
  unfold readExpr readLevel
  simp only [readOperand_eq plain, read, readParts_of_extendsOperand whole,
    readOperators_of_stopsAt stop]

/-- What is read up to its first part with all fuel but four parses. -/
theorem Expr.Parses.of_primary (plain : ∀ rest, startsSigned (e.tokens ++ rest) = false)
    (some' : 1 ≤ e.tokens.length)
    (read : ∀ {fuel room : Nat} (rest : List Token), 8 * e.tokens.length ≤ fuel + 4 → depth ≤ room →
      readPrimary (fuel + 1) room (e.tokens ++ rest) = some (e.flat, rest)) : e.Parses depth := by
  intro fuel room m rest enough roomy stop
  -- an expression, a level, an operand and its first part take one step each
  obtain ⟨fuel, rfl⟩ : ∃ fuel', fuel = fuel' + 4 := ⟨fuel - 4, by omega⟩
  exact readExpr_of_primary (plain _) (extendsOperand_of_isStop stop) (stopsAt_of_isStop stop)
    (read _ enough roomy)

/-- A text parses. -/
theorem Expr.Parses.str (text : String) : (Expr.str text).Parses 0 := by
  refine .of_primary (fun _ => rfl) (Nat.le_refl 1) fun rest _ _ => ?_
  unfold readPrimary
  rfl

/-- The value that stands for nothing parses. -/
theorem Expr.Parses.unit : Expr.unit.Parses 0 := by
  refine .of_primary (fun _ => rfl) (by decide) fun rest _ _ => ?_
  unfold readPrimary
  rfl

/-! ## Brackets -/

/-- Items between commas are read up to the closing bracket. -/
theorem readItems_parses {items : List Expr} (parses : ∀ item ∈ items, item.Parses depth)
    (starts : ∀ item ∈ items, StartsExpr item.tokens)
    (enough : 8 * (between (Expr.tokensOfItems items)).length < fuel) (roomy : depth ≤ room) :
    readItems fuel room .closeBracket
      (between (Expr.tokensOfItems items) ++ .mark .closeBracket :: rest) =
        some (Expr.flatItems items, rest) := by
  induction items generalizing fuel with
  | nil =>
    obtain ⟨fuel, rfl⟩ : ∃ fuel', fuel = fuel' + 1 := ⟨fuel - 1, by omega⟩
    have closed : expect .closeBracket (between (Expr.tokensOfItems []) ++
      .mark .closeBracket :: rest) = some rest := expect_self _ _
    unfold readItems
    rw [closed]
    rfl
  | cons item items ih =>
    obtain ⟨first, others⟩ := List.forall_mem_cons.1 parses
    obtain ⟨start, starts⟩ := List.forall_mem_cons.1 starts
    obtain ⟨fuel, rfl⟩ : ∃ fuel', fuel = fuel' + 1 := ⟨fuel - 1, by omega⟩
    -- the last item has a bracket behind it, any other one a comma
    cases items with
    | nil =>
      have tokens : between (Expr.tokensOfItems [item]) = item.tokens := rfl
      rw [tokens] at enough ⊢
      unfold readItems
      rw [expect_of_startsExpr (start.append _) rfl, first (by omega) roomy rfl]
      rfl
    | cons item' items =>
      have tokens : between (Expr.tokensOfItems (item :: item' :: items)) =
        item.tokens ++ .mark .comma :: between (Expr.tokensOfItems (item' :: items)) := rfl
      rw [tokens, List.length_append, List.length_cons] at enough
      rw [tokens, List.append_assoc, List.cons_append]
      unfold readItems
      rw [expect_of_startsExpr (start.append _) rfl, first (by omega) roomy rfl]
      have behind := ih others starts (show _ < fuel by omega)
      simp only [behind]
      rfl

/-- An entry with a new key is read in front of the entries behind it. -/
theorem readEntries_keyToken {key : String} {seen : List String} (new : key ∉ seen) :
    readEntries (fuel + 1) room seen (keyToken key :: .mark .colon :: ts) =
      match readExpr fuel room ts with
      | none => none
      | some (e, .mark .comma :: ts) =>
        (readEntries fuel room (key :: seen) ts).map fun (entries, ts) => ((key, e) :: entries, ts)
      | some (e, ts) => (expect .closeBrace ts).map fun ts => ([(key, e)], ts) := by
  conv => lhs; unfold readEntries
  split
  · next same =>
    -- a key is not the closing brace
    have first := (List.cons.inj same).1
    unfold keyToken at first
    split at first <;> cases first
  · rw [readKey_keyToken]
    refine (if_neg (by simpa using new)).trans ?_
    exact congrArg (Option.bind · _) (expect_self _ _)

/-- Entries with different keys between commas are read up to the closing brace. -/
theorem readEntries_parses {entries : List (String × Expr)} {seen : List String}
    (parses : ∀ p ∈ entries, p.2.Parses depth) (once : (entries.map Prod.fst).Nodup)
    (fresh : ∀ p ∈ entries, p.1 ∉ seen)
    (enough : 8 * (between (Expr.tokensOfEntries entries)).length < fuel) (roomy : depth ≤ room) :
    readEntries fuel room seen
      (between (Expr.tokensOfEntries entries) ++ .mark .closeBrace :: rest) =
        some (Expr.flatEntries entries, rest) := by
  induction entries generalizing fuel seen with
  | nil =>
    obtain ⟨fuel, rfl⟩ : ∃ fuel', fuel = fuel' + 1 := ⟨fuel - 1, by omega⟩
    unfold readEntries
    rfl
  | cons entry entries ih =>
    obtain ⟨key, e⟩ := entry
    have first : e.Parses depth := parses _ List.mem_cons_self
    have others := (List.forall_mem_cons.1 parses).2
    obtain ⟨new, fresh⟩ := List.forall_mem_cons.1 fresh
    obtain ⟨once', once⟩ := List.nodup_cons.1 once
    obtain ⟨fuel, rfl⟩ : ∃ fuel', fuel = fuel' + 1 := ⟨fuel - 1, by omega⟩
    cases entries with
    | nil =>
      have tokens : between (Expr.tokensOfEntries [(key, e)]) =
        keyToken key :: .mark .colon :: e.tokens := rfl
      rw [tokens, List.length_cons, List.length_cons] at enough
      rw [tokens, List.cons_append, List.cons_append, readEntries_keyToken new,
        first (by omega) roomy rfl]
      rfl
    | cons entry' entries =>
      have tokens : between (Expr.tokensOfEntries ((key, e) :: entry' :: entries)) =
        keyToken key :: .mark .colon :: (e.tokens ++ .mark .comma ::
          between (Expr.tokensOfEntries (entry' :: entries))) := rfl
      rw [tokens, List.length_cons, List.length_cons, List.length_append,
        List.length_cons] at enough
      rw [tokens, List.cons_append, List.cons_append, List.append_assoc, List.cons_append,
        readEntries_keyToken new, first (by omega) roomy rfl]
      -- the key that was read is none of those behind it
      have apart : ∀ p ∈ entry' :: entries, p.1 ∉ key :: seen := by
        intro p m
        rw [List.mem_cons, not_or]
        refine ⟨fun same => once' ?_, fresh p m⟩
        exact List.mem_map.2 ⟨p, m, same⟩
      have behind := ih others once apart (show _ < fuel by omega)
      simp only [behind]
      rfl

/-- An array of expressions that parse parses with one more bracket. -/
theorem Expr.Parses.array {layout : Layout} {items : List Expr}
    (parses : ∀ item ∈ items, item.Parses depth) (starts : ∀ item ∈ items, StartsExpr item.tokens) :
    (Expr.array layout items).Parses (depth + 1) := by
  have tokens : (Expr.array layout items).tokens =
    .mark .openBracket :: (between (Expr.tokensOfItems items) ++ [Token.mark .closeBracket]) := rfl
  refine .of_primary (fun _ => rfl) (by simp [tokens]) fun {fuel room} rest enough roomy => ?_
  obtain ⟨room, rfl⟩ : ∃ room', room = room' + 1 := ⟨room - 1, by omega⟩
  rw [tokens, List.length_cons, List.length_append, List.length_singleton] at enough
  rw [tokens, List.cons_append, List.append_assoc]
  unfold readPrimary
  simp only [List.cons_append, List.nil_append, readItems_parses parses starts
    (show _ < fuel by omega) (show depth ≤ room by omega)]
  rfl

/-- A map of expressions that parse, with different keys, parses with one more bracket. -/
theorem Expr.Parses.object {layout : Layout} {entries : List (String × Expr)}
    (parses : ∀ p ∈ entries, p.2.Parses depth) (once : (entries.map Prod.fst).Nodup) :
    (Expr.object layout entries).Parses (depth + 1) := by
  have tokens : (Expr.object layout entries).tokens =
    .mark .openMap :: (between (Expr.tokensOfEntries entries) ++ [Token.mark .closeBrace]) := rfl
  refine .of_primary (fun _ => rfl) (by simp [tokens]) fun {fuel room} rest enough roomy => ?_
  obtain ⟨room, rfl⟩ : ∃ room', room = room' + 1 := ⟨room - 1, by omega⟩
  rw [tokens, List.length_cons, List.length_append, List.length_singleton] at enough
  rw [tokens, List.cons_append, List.append_assoc]
  unfold readPrimary
  simp only [List.cons_append, List.nil_append, readEntries_parses parses once
    (fun _ _ => List.not_mem_nil) (show _ < fuel by omega) (show depth ≤ room by omega)]
  rfl

/-! ## Data -/

/-- An expression that is always read, with its number of brackets inside each other. -/
structure Expr.IsData (depth : Nat) (e : Expr) : Prop where
  /-- It starts no other statement. -/
  starts : StartsExpr e.tokens
  /-- Its words have a letter before their first digit. -/
  named : e.tokens.all Token.isNamed = true
  /-- Its tokens are read as the expression. -/
  parses : e.Parses depth

/-- The tokens of some expressions, each by its own. -/
theorem Expr.tokensOfItems_eq (items : List Expr) :
    Expr.tokensOfItems items = items.map Expr.tokens := by
  induction items with
  | nil => rfl
  | cons item items ih =>
    rw [List.map_cons, ← ih]
    rfl

/-- The tokens of some entries, each by its own. -/
theorem Expr.tokensOfEntries_eq (entries : List (String × Expr)) :
    Expr.tokensOfEntries entries =
      entries.map fun p => keyToken p.1 :: .mark .colon :: p.2.tokens := by
  induction entries with
  | nil => rfl
  | cons entry entries ih =>
    rw [List.map_cons, ← ih]
    rfl

/-- Between items whose words have a letter before their first digit there are only commas. -/
theorem isNamed_between {runs : List (List Token)}
    (named : ∀ ts ∈ runs, ts.all Token.isNamed = true) :
    (between runs).all Token.isNamed = true := by
  induction runs with
  | nil => rfl
  | cons ts runs ih =>
    obtain ⟨first, others⟩ := List.forall_mem_cons.1 named
    cases runs with
    | nil => exact first
    | cons ts' runs =>
      have tokens : between (ts :: ts' :: runs) = ts ++ .mark .comma :: between (ts' :: runs) := rfl
      rw [tokens, List.all_append, List.all_cons, first, ih others]
      rfl

namespace Expr.IsData

variable {layout : Layout}

/-- More brackets may be opened than are. -/
theorem mono {depth' : Nat} (h : e.IsData depth) (le : depth ≤ depth') : e.IsData depth' :=
  ⟨h.starts, h.named, h.parses.mono le⟩

/-- A text is data. -/
theorem str (text : String) : (Expr.str text).IsData 0 := ⟨⟨_, _, rfl, rfl⟩, rfl, .str text⟩

/-- The value that stands for nothing is data. -/
theorem unit : Expr.unit.IsData 0 := ⟨⟨_, _, rfl, rfl⟩, rfl, .unit⟩

/-- An array of data is data. -/
theorem array {items : List Expr} (data : ∀ item ∈ items, item.IsData depth) :
    (Expr.array layout items).IsData (depth + 1) where
  starts := ⟨_, _, rfl, rfl⟩
  named := by
    have named : (between (Expr.tokensOfItems items)).all Token.isNamed = true := by
      rw [Expr.tokensOfItems_eq]
      refine isNamed_between fun ts m => ?_
      obtain ⟨item, there, rfl⟩ := List.mem_map.1 m
      exact (data item there).named
    unfold Expr.tokens
    rw [List.all_cons, List.all_append, named]
    rfl
  parses := .array (fun item m => (data item m).parses) fun item m => (data item m).starts

/-- A map with different keys whose values are data is data. -/
theorem object {entries : List (String × Expr)} (data : ∀ p ∈ entries, p.2.IsData depth)
    (once : (entries.map Prod.fst).Nodup) (keys : ∀ p ∈ entries, (keyToken p.1).isNamed = true) :
    (Expr.object layout entries).IsData (depth + 1) where
  starts := ⟨_, _, rfl, rfl⟩
  named := by
    have named : (between (Expr.tokensOfEntries entries)).all Token.isNamed = true := by
      rw [Expr.tokensOfEntries_eq]
      refine isNamed_between fun ts m => ?_
      obtain ⟨p, there, rfl⟩ := List.mem_map.1 m
      rw [List.all_cons, List.all_cons, keys p there, (data p there).named]
      rfl
    unfold Expr.tokens
    rw [List.all_cons, List.all_append, named]
    rfl
  parses := .object (fun p m => (data p m).parses) once

end Expr.IsData

/-! ## Programs -/

/-- Data is read as the only statement of a block. -/
theorem readBlock_data (data : e.IsData depth) (enough : 8 * e.tokens.length ≤ fuel)
    (roomy : depth ≤ room) :
    readBlock (fuel + 3) (room + 1) (.mark .openBrace :: (e.tokens ++ .mark .closeBrace :: rest)) =
      some ([.value e.flat], rest) := by
  have starts := data.starts.append (.mark .closeBrace :: rest)
  have read : readStmt (fuel + 1) room (e.tokens ++ .mark .closeBrace :: rest) =
      some (.value e.flat, .mark .closeBrace :: rest) := by
    rw [readStmt_simple starts, readSimple_expr starts, data.parses enough roomy rfl]
    rfl
  unfold readBlock
  simp only [readStmts_stmt starts.startsStmt, read]

/-- The function of a name that takes nothing and returns the value of an expression. -/
def constantFunction (name : String) (e : Expr) : Function := ⟨name, [], [.value e]⟩

variable {name tab : String}

/-- The tokens of a function that takes nothing and returns the value of an expression. -/
theorem tokens_constantFunction (name : String) (e : Expr) :
    (constantFunction name e).tokens =
      .word "fn" :: .word name :: .mark .openParen :: .mark .closeParen :: .mark .openBrace ::
        (e.tokens ++ [.mark .closeBrace]) := by
  simp [constantFunction, Function.tokens, parameterTokens, between, Stmt.tokensOfBlock,
    Stmt.tokens]

/-- A function that returns data is read, behind the word that starts it. -/
theorem readFunction_data (free : isReserved name = false) (data : e.IsData depth)
    (enough : 8 * e.tokens.length ≤ fuel) (roomy : depth ≤ room) (rest : List Token) :
    readFunction (fuel + 3) (room + 1) (.word name :: .mark .openParen :: .mark .closeParen ::
        .mark .openBrace :: (e.tokens ++ .mark .closeBrace :: rest)) =
      some ((constantFunction name e).flat, rest) := by
  have named (ts : List Token) : readName (.word name :: ts) = some (name, ts) :=
    if_neg (by simp [free])
  unfold readFunction
  simp only [named, Option.bind_eq_bind, Option.bind_some, expect_self, readParameters,
    readBlock_data data enough roomy]
  rfl

/-- The tokens of a function that returns data are those of a program with this function only. -/
theorem ofTokens?_data (free : isReserved name = false) (data : e.IsData depth)
    (shallow : depth < maxNesting) :
    Program.ofTokens? (constantFunction name e).tokens =
      some ⟨[(constantFunction name e).flat], []⟩ := by
  -- four steps are taken on the way to the data, for which more than enough fuel is left
  have enough : 8 * (constantFunction name e).tokens.length + 8 =
      8 * e.tokens.length + 52 + 3 + 1 := by
    simp only [tokens_constantFunction, List.length_cons, List.length_append, List.length_nil]
    omega
  have found := readFunction_data free data
    (show 8 * e.tokens.length ≤ 8 * e.tokens.length + 52 by omega)
    (show depth ≤ 63 by unfold maxNesting at shallow; omega) []
  have ended (p : Program) : readProgram (8 * e.tokens.length + 52 + 3) p [] = some p := by
    unfold readProgram
    rfl
  have read : readProgram (8 * e.tokens.length + 52 + 3 + 1) .empty
      (constantFunction name e).tokens = some ⟨[(constantFunction name e).flat], []⟩ := by
    rw [tokens_constantFunction]
    conv => lhs; unfold readProgram
    exact Option.bind_eq_some_iff.2 ⟨_, found, ended _⟩
  unfold Program.ofTokens?
  rw [enough, read]
  rfl

/-- The text of a function that returns data is a program with this function only. -/
theorem ofText?_data (blank : Text.isBlank tab.toList = true)
    (line : ∀ c ∈ tab.toList, c ≠ '\n' ∧ c ≠ '\r') (free : isReserved name = false)
    (named : isName name.toList = true) (legible : (constantFunction name e).isLegible = true)
    (data : e.IsData depth) (shallow : depth < maxNesting) :
    Program.ofText? ((constantFunction name e).text tab) =
      some ⟨[(constantFunction name e).flat], []⟩ := by
  have words : (constantFunction name e).tokens.all Token.isNamed = true := by
    rw [tokens_constantFunction]
    simp only [List.all_cons, List.all_append, data.named]
    simpa [Token.isNamed] using ⟨by decide, named⟩
  unfold Program.ofText?
  rw [(Function.lexes blank line legible).tokens?_eq_some words]
  exact ofTokens?_data free data shallow

end Pipewright.Script
