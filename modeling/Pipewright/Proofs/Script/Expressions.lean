import Pipewright.Proofs.Script.Parsing

/-! # Reading expressions
Every form of a legible expression is read as itself: literals and names, what stands in brackets,
the parts behind an expression, and operators, which group as they are written. -/

namespace Pipewright.Script

open Script.Parser

variable {e : Expr} {fuel room level : Nat} {rest ts : List Token} {m : Mark}

/-! ## Operands -/

/-- Reading an operand without operators gives an expression, up to its first part. -/
def ReadsPrimary (e : Expr) : Prop :=
  ∀ ⦃fuel room : Nat⦄ ⦃rest : List Token⦄ ⦃r : Expr × List Token⦄, extendsName rest = false →
    readPrimary fuel room (e.tokens ++ rest) = some r → r = (e.flat, rest)

/-- Whether tokens start with a sign that stands in front of an operand. -/
def startsSigned : List Token → Bool
  | .mark .not :: _ => true
  | .mark .minus :: _ => true
  | _ => false

/-- An operand that starts with no sign. -/
theorem readOperand_primary {r : Expr × List Token} (plain : startsSigned ts = false)
    (h : readOperand fuel room ts = some r) :
    ∃ fuel' e rest, readPrimary fuel' room ts = some (e, rest) ∧
      readParts fuel' room e rest = some r := by
  unfold readOperand at h
  cases fuel with
  | zero => cases h
  | succ fuel =>
    simp only at h
    split at h
    · cases plain
    · cases plain
    · cases plain
    · cases plain
    · cases read : readPrimary fuel room ts with
      | none =>
        rw [read] at h
        cases h
      | some r' =>
        rw [read] at h
        exact ⟨fuel, r'.1, r'.2, read, h⟩

/-- An expression that starts with no sign and is read up to its first part. -/
theorem Expr.Reads.of_primary (h : ReadsPrimary e)
    (plain : ∀ rest, startsSigned (e.tokens ++ rest) = false) : e.Reads := by
  refine .of_target fun fuel room rest r end' read => ?_
  obtain ⟨fuel', e', rest', first, parts⟩ := readOperand_primary (plain rest) read
  cases h end' first
  exact ⟨fuel', parts⟩

/-- A name that is read is what it is, and not reserved. -/
theorem readName_word {name : String} {r : String × List Token}
    (h : readName (.word name :: rest) = some r) : r = (name, rest) := by
  change (if isReserved name then none else some (name, rest)) = some r at h
  split at h
  · cases h
  · exact (Option.some.inj h).symm

/-! ### Words -/

/-- A variable is read. -/
theorem Expr.Reads.var {name : String} (word : isNameWord name = true) : (Expr.var name).Reads := by
  obtain ⟨notTrue, notFalse, -⟩ := isNameWord_spec word
  refine .of_primary (fun fuel room rest r end' read => ?_) fun _ => rfl
  have tokens : (Expr.var name).tokens ++ rest = .word name :: rest := rfl
  rw [tokens] at read
  unfold readPrimary at read
  cases fuel with
  | zero => cases read
  | succ fuel =>
    have found : (readName (.word name :: rest)).map (fun r => (Expr.var r.1, r.2)) = some r := by
      rw [← read]
      grind [extendsName]
    obtain ⟨r', found', rfl⟩ := Option.map_eq_some_iff.1 found
    cases readName_word found'
    rfl

/-- A constant of a module is read. -/
theorem Expr.Reads.constant {space name : String} (word : isNameWord space = true) :
    (Expr.constant space name).Reads := by
  obtain ⟨notTrue, notFalse, -⟩ := isNameWord_spec word
  refine .of_primary (fun fuel room rest r end' read => ?_) fun _ => rfl
  have tokens : (Expr.constant space name).tokens ++ rest =
    .word space :: .mark .path :: .word name :: rest := rfl
  rw [tokens] at read
  unfold readPrimary at read
  cases fuel with
  | zero => cases read
  | succ fuel =>
    simp only [] at read
    cases named : readName (.word name :: rest) with
    | none =>
      rw [named] at read
      cases read
    | some r' =>
      cases readName_word named
      rw [named] at read
      simp only [Option.bind_eq_bind, Option.bind_some] at read
      split at read
      · cases read
      · split at read
        · cases end'
        · exact (Option.some.inj read).symm

/-- A truth value is read. -/
theorem Expr.Reads.bool (b : Bool) : (Expr.bool b).Reads := by
  refine .of_primary (fun fuel room rest r end' read => ?_) fun _ => by cases b <;> rfl
  unfold readPrimary at read
  cases fuel with
  | zero => cases read
  | succ fuel =>
    cases b with
    | true => exact (Option.some.inj read).symm
    | false => exact (Option.some.inj read).symm

/-! ### Numbers and texts -/

/-- Digits behind a minus sign are one literal. -/
theorem readOperand_negated {n : Nat} {r : Expr × List Token}
    (h : readOperand fuel room (.mark .minus :: .digits n :: rest) = some r) :
    ∃ fuel', readParts fuel' room (.ofNegatedDigits n) rest = some r := by
  unfold readOperand at h
  cases fuel with
  | zero => cases h
  | succ fuel => exact ⟨fuel, h⟩

/-- A decimal behind a minus sign is one literal. -/
theorem readOperand_opposite {x : Float} {r : Expr × List Token}
    (h : readOperand fuel room (.mark .minus :: .decimal x :: rest) = some r) :
    ∃ fuel', readParts fuel' room (.float (-x)) rest = some r := by
  unfold readOperand at h
  cases fuel with
  | zero => cases h
  | succ fuel => exact ⟨fuel, h⟩

/-- The bounds of 64-bit numbers. -/
theorem toInt_bounds (n : Int64) : -9223372036854775808 ≤ n.toInt ∧ n.toInt < 9223372036854775808 :=
  ⟨Int64.le_toInt n, Int64.toInt_lt n⟩

/-- The digits of a number that is not negative are its literal. -/
theorem ofDigits_natAbs {n : Int64} (h : ¬ n.toInt < 0) : Expr.ofDigits n.toInt.natAbs = .int n := by
  have bound : signedBound = 9223372036854775808 := rfl
  have := toInt_bounds n
  have same : ((n.toInt.natAbs : Nat) : Int) = n.toInt := by omega
  unfold Expr.ofDigits
  rw [if_pos (by omega), ← Int64.ofInt_eq_ofNat, same, Int64.ofInt_toInt]

/-- The digits of a negative number behind a minus sign are its literal. -/
theorem ofNegatedDigits_natAbs {n : Int64} (h : n.toInt < 0) :
    Expr.ofNegatedDigits n.toInt.natAbs = .int n := by
  have bound : signedBound = 9223372036854775808 := rfl
  have := toInt_bounds n
  have same : -((n.toInt.natAbs : Nat) : Int) = n.toInt := by omega
  unfold Expr.ofNegatedDigits
  rw [if_pos (by omega), same, Int64.ofInt_toInt]

/-- A literal that is one token is read. -/
theorem Expr.Reads.of_token (token : Token) (tokens : e.tokens = [token])
    (read : ∀ fuel room rest, readPrimary (fuel + 1) room (token :: rest) = some (e.flat, rest))
    (plain : ∀ rest, startsSigned (token :: rest) = false) : e.Reads := by
  refine .of_primary (fun fuel room rest r end' h => ?_) fun rest => by rw [tokens]; exact plain rest
  rw [tokens] at h
  cases fuel with
  | zero =>
    unfold readPrimary at h
    cases h
  | succ fuel => exact Option.some.inj (h.symm.trans (read fuel room rest))

/-- A whole number is read. -/
theorem Expr.Reads.int (n : Int64) : (Expr.int n).Reads := by
  by_cases negative : n.toInt < 0
  · have tokens : (Expr.int n).tokens = [.mark .minus, .digits n.toInt.natAbs] := if_pos negative
    refine .of_target fun fuel room rest r end' read => ?_
    rw [tokens] at read
    have := readOperand_negated read
    rwa [ofNegatedDigits_natAbs negative] at this
  · refine .of_token (.digits n.toInt.natAbs) (if_neg negative) (fun fuel room rest => ?_)
      fun _ => rfl
    rw [readPrimary, ofDigits_natAbs negative]
    rfl

/-- A floating-point number is read. -/
theorem Expr.Reads.float (x : Float) : (Expr.float x).Reads := by
  by_cases negative : Decimal.isNegative x = true
  · have tokens : (Expr.float x).tokens = [.mark .minus, .decimal (-x)] := if_pos negative
    refine .of_target fun fuel room rest r end' read => ?_
    rw [tokens] at read
    have := readOperand_opposite read
    rwa [Decimal.neg_neg] at this
  · refine .of_token (.decimal x) (if_neg negative) (fun fuel room rest => ?_) fun _ => rfl
    rw [readPrimary]
    rfl

/-- A text is read. -/
theorem Expr.Reads.str (text : String) : (Expr.str text).Reads :=
  .of_token (.text text) rfl (fun fuel room rest => by rw [readPrimary]; rfl) fun _ => rfl

/-! ### Brackets -/

/-- Nothing in parentheses is read. -/
theorem Expr.Reads.unit : Expr.unit.Reads := by
  refine .of_primary (fun fuel room rest r end' read => ?_) fun _ => rfl
  unfold readPrimary at read
  cases fuel with
  | zero => cases read
  | succ fuel => exact (Option.some.inj read).symm

/-- An expression in parentheses is read. -/
theorem Expr.Reads.paren (h : e.Reads) (starts : StartsExpr e.tokens) : (Expr.paren e).Reads := by
  refine .of_primary (fun fuel room rest r end' read => ?_) fun _ => rfl
  have tokens : (Expr.paren e).tokens ++ rest =
      .mark .openParen :: (e.tokens ++ .mark .closeParen :: rest) := by
    rw [Expr.tokens]
    simp only [List.cons_append, List.append_assoc, List.nil_append]
  rw [tokens] at read
  obtain ⟨t, ts, first, start⟩ := starts
  have inner : t ≠ .mark .closeParen := by
    rintro rfl
    cases start
  unfold readPrimary at read
  cases fuel with
  | zero => cases read
  | succ fuel =>
    cases room with
    | zero =>
      rw [first] at read
      simp [inner] at read
    | succ room =>
      have opened : (do
          let r ← readExpr fuel room (e.tokens ++ .mark .closeParen :: rest)
          return (Expr.paren r.1, ← expect .closeParen r.2)) = some r := by
        rw [← read, first]
        simp [inner]
      cases found : readExpr fuel room (e.tokens ++ .mark .closeParen :: rest) with
      | none =>
        rw [found] at opened
        cases opened
      | some r' =>
        cases h.expr (extendsOperand_of_isStop rfl) (stopsAt_of_isStop rfl) found
        rw [found] at opened
        simp only [Option.bind_eq_bind, Option.bind_some, expect_self] at opened
        exact (Option.some.inj opened).symm

/-- An array is read. -/
theorem Expr.Reads.array {layout : Layout} {items : List Expr} (reads : ∀ item ∈ items, item.Reads)
    (starts : ∀ item ∈ items, StartsExpr item.tokens) : (Expr.array layout items).Reads := by
  refine .of_primary (fun fuel room rest r end' read => ?_) fun _ => rfl
  have tokens : (Expr.array layout items).tokens ++ rest = .mark .openBracket ::
      (between (Expr.tokensOfItems items) ++ .mark .closeBracket :: rest) := by
    rw [Expr.tokens]
    simp only [List.cons_append, List.append_assoc, List.nil_append]
  rw [tokens] at read
  unfold readPrimary at read
  cases fuel with
  | zero => cases read
  | succ fuel =>
    cases room with
    | zero => cases read
    | succ room =>
      obtain ⟨r', found, rfl⟩ := Option.map_eq_some_iff.1 read
      cases readItems_between (.inr rfl) reads starts found
      rfl

/-- A map is read. -/
theorem Expr.Reads.object {layout : Layout} {entries : List (String × Expr)}
    (reads : ∀ p ∈ entries, p.2.Reads) : (Expr.object layout entries).Reads := by
  refine .of_primary (fun fuel room rest r end' read => ?_) fun _ => rfl
  have tokens : (Expr.object layout entries).tokens ++ rest = .mark .openMap ::
      (between (Expr.tokensOfEntries entries) ++ .mark .closeBrace :: rest) := by
    rw [Expr.tokens]
    simp only [List.cons_append, List.append_assoc, List.nil_append]
  rw [tokens] at read
  unfold readPrimary at read
  cases fuel with
  | zero => cases read
  | succ fuel =>
    cases room with
    | zero => cases read
    | succ room =>
      obtain ⟨r', found, rfl⟩ := Option.map_eq_some_iff.1 read
      cases readEntries_between reads found
      rfl

/-- A call is read. -/
theorem Expr.Reads.call {function : String} {arguments : List Expr}
    (word : isNameWord function = true) (reads : ∀ item ∈ arguments, item.Reads)
    (starts : ∀ item ∈ arguments, StartsExpr item.tokens) :
    (Expr.call function arguments).Reads := by
  obtain ⟨notTrue, notFalse, -⟩ := isNameWord_spec word
  refine .of_primary (fun fuel room rest r end' read => ?_) fun _ => rfl
  have tokens : (Expr.call function arguments).tokens ++ rest = .word function ::
      .mark .openParen :: (between (Expr.tokensOfItems arguments) ++ .mark .closeParen :: rest) := by
    rw [Expr.tokens]
    simp only [List.cons_append, List.append_assoc, List.nil_append]
  rw [tokens] at read
  unfold readPrimary at read
  cases fuel with
  | zero => cases read
  | succ fuel =>
    simp only [] at read
    cases room with
    | zero => cases read
    | succ room =>
      simp only at read
      split at read
      · cases read
      · obtain ⟨r', found, rfl⟩ := Option.map_eq_some_iff.1 read
        cases readItems_between (.inl rfl) reads starts found
        rfl

/-- A call of a function of a module is read. -/
theorem Expr.Reads.moduleCall {space function : String} {arguments : List Expr}
    (word : isNameWord space = true) (reads : ∀ item ∈ arguments, item.Reads)
    (starts : ∀ item ∈ arguments, StartsExpr item.tokens) :
    (Expr.moduleCall space function arguments).Reads := by
  obtain ⟨notTrue, notFalse, -⟩ := isNameWord_spec word
  refine .of_primary (fun fuel room rest r end' read => ?_) fun _ => rfl
  have tokens : (Expr.moduleCall space function arguments).tokens ++ rest = .word space ::
      .mark .path :: .word function :: .mark .openParen ::
        (between (Expr.tokensOfItems arguments) ++ .mark .closeParen :: rest) := by
    rw [Expr.tokens]
    simp only [List.cons_append, List.append_assoc, List.nil_append]
  rw [tokens] at read
  unfold readPrimary at read
  cases fuel with
  | zero => cases read
  | succ fuel =>
    simp only [] at read
    cases named : readName (.word function :: .mark .openParen ::
        (between (Expr.tokensOfItems arguments) ++ .mark .closeParen :: rest)) with
    | none =>
      rw [named] at read
      cases read
    | some r' =>
      cases readName_word named
      rw [named] at read
      simp only [Option.bind_eq_bind, Option.bind_some] at read
      split at read
      · cases read
      · cases room with
        | zero => cases read
        | succ room =>
          obtain ⟨r', found, rfl⟩ := Option.map_eq_some_iff.1 read
          cases readItems_between (.inl rfl) reads starts found
          rfl

/-! ### Parts -/

/-- The name of a field is read. -/
theorem readMember_field {name : String} {r : String × List Token}
    (stop : extendsName rest = false) (h : readMember (.word name :: rest) = some r) :
    r = (name, rest) := by
  unfold readMember at h
  split at h
  · next same =>
    cases same
    cases stop
  · exact readName_word h

/-- The name of a function behind a point is read. -/
theorem readMember_function {name : String} {r : String × List Token}
    (h : readMember (.word name :: .mark .openParen :: rest) = some r) :
    r = (name, .mark .openParen :: rest) := by
  unfold readMember at h
  split at h
  · next same =>
    cases same
    exact (Option.some.inj h).symm
  · exact readName_word h

/-- Reading a part of a target comes to reading what stands behind the target. -/
theorem ReadsTarget.exists_parts (h : ReadsTarget e) {whole : Expr} {behind : List Token}
    (tokens : whole.tokens ++ rest = e.tokens ++ behind) (name : extendsName behind = false)
    {r : Expr × List Token} (read : readOperand fuel room (whole.tokens ++ rest) = some r) :
    ∃ fuel', readParts (fuel' + 1) room e.flat behind = some r := by
  rw [tokens] at read
  obtain ⟨fuel', parts⟩ := h name read
  cases fuel' with
  | zero =>
    unfold readParts at parts
    cases parts
  | succ fuel' => exact ⟨fuel', parts⟩

/-- A field is read. -/
theorem Expr.Reads.field {name : String} (h : ReadsTarget e) : (Expr.field e name).Reads := by
  refine .of_target fun fuel room rest r end' read => ?_
  have tokens : (Expr.field e name).tokens ++ rest =
      e.tokens ++ .mark .dot :: .word name :: rest := by
    rw [Expr.tokens]
    simp only [List.cons_append, List.append_assoc, List.nil_append]
  obtain ⟨fuel', parts⟩ := h.exists_parts tokens rfl read
  unfold readParts at parts
  simp only at parts
  cases named : readMember (.word name :: rest) with
  | none =>
    rw [named] at parts
    cases parts
  | some r' =>
    cases readMember_field end' named
    rw [named] at parts
    split at parts
    · next none => cases none
    · next same =>
      cases same
      cases end'
    · next same =>
      cases same
      exact ⟨fuel', parts⟩

/-- A call of a function on a receiver is read. -/
theorem Expr.Reads.method {function : String} {arguments : List Expr} (h : ReadsTarget e)
    (reads : ∀ item ∈ arguments, item.Reads)
    (starts : ∀ item ∈ arguments, StartsExpr item.tokens) :
    (Expr.method e function arguments).Reads := by
  refine .of_target fun fuel room rest r end' read => ?_
  have tokens : (Expr.method e function arguments).tokens ++ rest = e.tokens ++ .mark .dot ::
      .word function :: .mark .openParen ::
        (between (Expr.tokensOfItems arguments) ++ .mark .closeParen :: rest) := by
    rw [Expr.tokens]
    simp only [List.cons_append, List.append_assoc, List.nil_append]
  obtain ⟨fuel', parts⟩ := h.exists_parts tokens rfl read
  unfold readParts at parts
  simp only at parts
  cases named : readMember (.word function :: .mark .openParen ::
      (between (Expr.tokensOfItems arguments) ++ .mark .closeParen :: rest)) with
  | none =>
    rw [named] at parts
    cases parts
  | some r' =>
    cases readMember_function named
    rw [named] at parts
    cases room with
    | zero => cases parts
    -- arguments are read one level further down than the call
    | succ inner =>
      simp only at parts
      cases found : readItems fuel' inner .closeParen
          (between (Expr.tokensOfItems arguments) ++ .mark .closeParen :: rest) with
      | none =>
        rw [found] at parts
        cases parts
      | some r' =>
        cases readItems_between (.inl rfl) reads starts found
        rw [found] at parts
        exact ⟨fuel', parts⟩

/-- An item or entry is read. -/
theorem Expr.Reads.index {key : Expr} (h : ReadsTarget e) (h' : key.Reads) :
    (Expr.index e key).Reads := by
  refine .of_target fun fuel room rest r end' read => ?_
  have tokens : (Expr.index e key).tokens ++ rest =
      e.tokens ++ .mark .openBracket :: (key.tokens ++ .mark .closeBracket :: rest) := by
    rw [Expr.tokens]
    simp only [List.cons_append, List.append_assoc, List.nil_append]
  obtain ⟨fuel', parts⟩ := h.exists_parts tokens rfl read
  unfold readParts at parts
  cases room with
  | zero => cases parts
  | succ inner =>
    simp only at parts
    cases found : readExpr fuel' inner (key.tokens ++ .mark .closeBracket :: rest) with
    | none =>
      rw [found] at parts
      cases parts
    | some r' =>
      cases h'.expr (extendsOperand_of_isStop rfl) (stopsAt_of_isStop rfl) found
      rw [found] at parts
      exact ⟨fuel', parts⟩

/-! ### Operators -/

/-- The opposite truth value is read. -/
theorem Expr.Reads.not (h : ReadsOperand e) : (Expr.not e).Reads := by
  refine .of_operand (fun fuel room rest r end' read => ?_) rfl
  have tokens : (Expr.not e).tokens ++ rest = .mark .not :: (e.tokens ++ rest) := rfl
  rw [tokens] at read
  unfold readOperand at read
  cases fuel with
  | zero => cases read
  | succ fuel =>
    obtain ⟨r', found, rfl⟩ := Option.map_eq_some_iff.1 read
    cases h end' found
    rfl

/-- What stops a looser operator stops a tighter one. -/
theorem stopsAt_mono {level' : Nat} (h : stopsAt level rest = true) (le : level ≤ level') :
    stopsAt level' rest = true := by
  unfold stopsAt at h ⊢
  split at h
  · next mark _ =>
    cases found : Operator.ofMark? mark with
    | none => rfl
    | some operator =>
      rw [found] at h
      simp only [Option.all_some, decide_eq_true_iff] at h ⊢
      omega
  · rfl

/-- The signs of an operator are read as it. -/
theorem ofMark?_mark (operator : Operator) : Operator.ofMark? operator.mark = some operator := by
  cases operator <;> rfl

/-- Behind an operand an operator is no part of it. -/
theorem extendsOperand_operator (operator : Operator) (rest : List Token) :
    extendsOperand (.mark operator.mark :: rest) = false := by
  cases operator <;> rfl

/-- An operator between two expressions is read. -/
theorem Expr.Reads.binary {operator : Operator} {left right : Expr} (h : left.Reads)
    (h' : right.Reads) (loose : operator.level ≤ left.level)
    (tight : operator.level < right.level) : (Expr.binary operator left right).Reads := by
  have low : operator.level < 6 := by cases operator <;> decide
  refine ⟨?_, fun outer => absurd outer low.ne, fun target => by cases target⟩
  intro fuel room level rest r less end' stop read
  have tokens : (Expr.binary operator left right).tokens ++ rest =
      left.tokens ++ .mark operator.mark :: (right.tokens ++ rest) := by
    rw [Expr.tokens]
    simp only [List.cons_append, List.append_assoc]
  rw [tokens] at read
  have less' : level < operator.level := less
  have stop' : stopsAt left.level (.mark operator.mark :: (right.tokens ++ rest)) = true := by
    show ((Operator.ofMark? operator.mark).all fun o => decide (o.level ≤ left.level)) = true
    rw [ofMark?_mark]
    exact decide_eq_true loose
  obtain ⟨fuel', more⟩ :=
    h.level (less'.trans_le loose) (extendsOperand_operator operator _) stop' read
  unfold readOperators at more
  cases fuel' with
  | zero => cases more
  | succ fuel' =>
    simp only [ofMark?_mark] at more
    rw [if_neg (Nat.not_le_of_lt less')] at more
    -- the right operand takes tighter operators only, and none of them follows
    cases found : readLevel fuel' room operator.level (right.tokens ++ rest) with
    | none =>
      rw [found] at more
      cases more
    | some r' =>
      obtain ⟨fuel'', last⟩ := h'.level tight end' (stopsAt_mono stop tight.le) found
      cases readOperators_stop stop last
      rw [found] at more
      exact ⟨fuel', more⟩

/-! ### All expressions -/

/-- The tokens of legible expressions start as ones. -/
theorem Expr.startsExpr_items {items : List Expr} (h : Expr.areLegible items = true) :
    ∀ item ∈ items, StartsExpr item.tokens := by
  induction items with
  | nil => exact fun _ m => by cases m
  | cons item items ih =>
    unfold Expr.areLegible at h
    rw [Bool.and_eq_true] at h
    intro e m
    rcases List.mem_cons.1 m with rfl | m
    · exact e.startsExpr h.1
    · exact ih h.2 e m

/-- No operator binds more tightly than what is no operator. -/
theorem Expr.level_le (e : Expr) : e.level ≤ 6 := by
  unfold level
  split
  · next operator _ _ => cases operator <;> decide
  · exact le_refl _

mutual

/-- A legible expression is read. -/
theorem Expr.reads : (e : Expr) → e.isLegible = true → e.Reads
  | .unit, _ => .unit
  | .bool b, _ => .bool b
  | .int n, _ => .int n
  | .float x, _ => .float x
  | .str text, _ => .str text
  | .var _, h => .var h
  | .constant _ _, h => .constant (Bool.and_eq_true_iff.1 h).1
  | .array _ items, h => .array (Expr.reads_items items h) (Expr.startsExpr_items h)
  | .object _ entries, h => .object (Expr.reads_entries entries h)
  | .call _ arguments, h => by
    unfold Expr.isLegible at h
    rw [Bool.and_eq_true] at h
    exact .call h.1 (Expr.reads_items arguments h.2) (Expr.startsExpr_items h.2)
  | .moduleCall _ _ arguments, h => by
    unfold Expr.isLegible at h
    rw [Bool.and_eq_true, Bool.and_eq_true] at h
    exact .moduleCall h.1.1 (Expr.reads_items arguments h.2) (Expr.startsExpr_items h.2)
  | .method receiver _ arguments, h => by
    unfold Expr.isLegible at h
    simp only [Bool.and_eq_true] at h
    exact .method ((Expr.reads receiver h.1.1.2).target h.1.1.1)
      (Expr.reads_items arguments h.2) (Expr.startsExpr_items h.2)
  | .field target _, h => by
    unfold Expr.isLegible at h
    simp only [Bool.and_eq_true] at h
    exact .field ((Expr.reads target h.1.2).target h.1.1)
  | .index target key, h => by
    unfold Expr.isLegible at h
    simp only [Bool.and_eq_true] at h
    exact .index ((Expr.reads target h.1.2).target h.1.1) (Expr.reads key h.2)
  -- an operand binds at least as tightly as its operator, so it is read before it
  | .not operand, h => by
    unfold Expr.isLegible at h
    rw [Bool.and_eq_true, decide_eq_true_iff] at h
    exact .not ((Expr.reads operand h.2).operand (le_antisymm operand.level_le h.1))
  -- no legible expression is a sign by itself
  | .negate _, h => by
    unfold Expr.isLegible at h
    exact absurd h Bool.false_ne_true
  | .binary _ left right, h => by
    unfold Expr.isLegible at h
    simp only [Bool.and_eq_true, decide_eq_true_iff] at h
    exact .binary (Expr.reads left h.1.2) (Expr.reads right h.2) h.1.1.1 h.1.1.2
  | .paren inner, h => by
    unfold Expr.isLegible at h
    exact .paren (Expr.reads inner h) (inner.startsExpr h)

/-- Legible expressions are read. -/
theorem Expr.reads_items : (items : List Expr) → Expr.areLegible items = true →
    ∀ item ∈ items, item.Reads
  | [], _, _, m => by cases m
  | item :: items, h, e, m => by
    unfold Expr.areLegible at h
    rw [Bool.and_eq_true] at h
    rcases List.mem_cons.1 m with same | m
    · rw [same]
      exact Expr.reads item h.1
    · exact Expr.reads_items items h.2 e m

/-- The values of legible entries are read. -/
theorem Expr.reads_entries : (entries : List (String × Expr)) →
    Expr.areLegibleEntries entries = true → ∀ p ∈ entries, p.2.Reads
  | [], _, _, m => by cases m
  | (key, e) :: entries, h, p, m => by
    unfold Expr.areLegibleEntries at h
    rw [Bool.and_eq_true] at h
    rcases List.mem_cons.1 m with same | m
    · rw [same]
      exact Expr.reads e h.1
    · exact Expr.reads_entries entries h.2 p m

end

end Pipewright.Script
