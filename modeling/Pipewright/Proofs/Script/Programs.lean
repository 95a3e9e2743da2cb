import Pipewright.Proofs.Script.Statements

/-! # Reading programs
The tokens of import lines and of legible functions behind them are read as a program that has these
functions without their layout, and no two of them that could be confused. -/

namespace Pipewright.Script

open Script.Parser

variable {f : Function} {functions : List Function} {fuel room : Nat} {rest ts : List Token}
  {p q : Program}

/-! ## Functions -/

/-- The names of parameters are read up to the parenthesis. -/
theorem readParameters_tokens {names seen : List String} {r : List String × List Token}
    (h : readParameters seen (parameterTokens names ++ .mark .closeParen :: rest) = some r) :
    r = (names, rest) := by
  induction names generalizing seen r with
  | nil => exact (Option.some.inj h).symm
  | cons name names ih =>
    cases names with
    | nil =>
      change (if isReserved name || seen.contains name then none else some ([name], rest)) =
        some r at h
      split at h
      · cases h
      · exact (Option.some.inj h).symm
    | cons name' names =>
      change (if isReserved name || seen.contains name then none
        else (readParameters (name :: seen)
          (parameterTokens (name' :: names) ++ .mark .closeParen :: rest)).map fun r =>
            (name :: r.1, r.2)) = some r at h
      split at h
      · cases h
      · obtain ⟨r', others, rfl⟩ := Option.map_eq_some_iff.1 h
        cases ih others
        rfl

/-- The tokens of a legible function are read as the function, behind the word that starts it. -/
theorem readFunction_tokens (legible : f.isLegible = true) {r : Function × List Token}
    (h : readFunction fuel room (f.tokens.tail ++ rest) = some r) : r = (f.flat, rest) := by
  unfold Function.isLegible at legible
  rw [Bool.and_eq_true, Bool.and_eq_true] at legible
  unfold Function.tokens at h
  simp only [List.tail_cons, List.cons_append, List.append_assoc, List.nil_append] at h
  obtain ⟨r₁, named, h⟩ := Option.bind_eq_some_iff.1 h
  cases readName_word named
  obtain ⟨r₂, opened, h⟩ := Option.bind_eq_some_iff.1 h
  cases opened
  obtain ⟨r₃, parameters, h⟩ := Option.bind_eq_some_iff.1 h
  cases readParameters_tokens parameters
  obtain ⟨r₄, body, h⟩ := Option.bind_eq_some_iff.1 h
  cases (Stmt.reads_block legible.2).block body
  exact (Option.some.inj h).symm

/-! ## Programs -/

/-- No two functions of a program could be confused: they differ in their names or in the number of
their parameters. -/
def Program.Distinct (p : Program) : Prop :=
  (p.functions.map fun f => (f.name, f.arity)).Nodup

/-- A function that none could be confused with may join. -/
theorem Program.Distinct.join (h : p.Distinct) (absent : p.hasFunction f.name f.arity = false) :
    Program.Distinct { p with functions := p.functions ++ [f] } := by
  unfold Distinct at h ⊢
  rw [List.map_append, List.nodup_append]
  refine ⟨h, List.nodup_singleton _, ?_⟩
  rintro _ m' _ last rfl
  obtain ⟨f', m, same⟩ := List.mem_map.1 m'
  cases List.mem_singleton.1 last
  have other : ∀ f' ∈ p.functions, f'.name = f.name → ¬ f'.arity = f.arity := by
    simpa [hasFunction, function?] using absent
  exact other f' m (Prod.mk.inj same).1 (Prod.mk.inj same).2

/-- In a program without functions that could be confused, each one is found by its name and the
number of its parameters. -/
theorem Program.Distinct.function?_eq (h : p.Distinct) (m : f ∈ p.functions) :
    p.function? f.name f.arity = some f := by
  unfold Distinct at h
  unfold function?
  generalize p.functions = functions at h m
  induction functions with
  | nil => cases m
  | cons f' functions ih =>
    rw [List.map_cons, List.nodup_cons] at h
    rw [List.find?_cons]
    rcases List.mem_cons.1 m with rfl | m
    · simp
    · have apart : (f'.name == f.name && f'.arity == f.arity) = false := by
        rw [Bool.eq_false_iff]
        intro same
        rw [Bool.and_eq_true, beq_iff_eq, beq_iff_eq] at same
        refine h.1 (List.mem_map.2 ⟨f, m, ?_⟩)
        rw [same.1, same.2]
      rw [apart]
      exact ih h.2 m

/-- Functions are read one after another to the end of the tokens. -/
theorem readProgram_functions (legible : ∀ f ∈ functions, f.isLegible = true)
    (h : readProgram fuel p (functionsTokens functions) = some q) (distinct : p.Distinct) :
    q = { p with functions := p.functions ++ functions.map Function.flat } ∧ q.Distinct := by
  induction functions generalizing fuel p with
  | nil =>
    unfold readProgram at h
    cases fuel with
    | zero => cases h
    | succ fuel =>
      cases h
      exact ⟨by simp, distinct⟩
  | cons f functions ih =>
    unfold readProgram at h
    cases fuel with
    | zero => cases h
    | succ fuel =>
      have opened : functionsTokens (f :: functions) =
          .word "fn" :: (f.tokens.tail ++ functionsTokens functions) := rfl
      rw [opened] at h
      obtain ⟨r, found, h⟩ := Option.bind_eq_some_iff.1 h
      cases readFunction_tokens (legible f List.mem_cons_self) found
      simp only at h
      split at h
      · cases h
      next absent =>
      -- the program so far takes the function, whose name and number of parameters are new to it
      obtain ⟨same, distinct'⟩ := ih (fun f m => legible f (List.mem_cons_of_mem _ m)) h
        (distinct.join (by simpa using absent))
      refine ⟨?_, distinct'⟩
      rw [same]
      simp

/-- The statement that makes a module known under its own name. -/
def importStmt (name : String) : Stmt := .useModule name name

/-- An import line is read as a statement. -/
theorem readProgram_import :
    readProgram (fuel + 1) p (.word "import" :: ts) =
      match readStmt fuel maxNesting (.word "import" :: ts) with
      | none => none
      | some (stmt, .mark .semicolon :: ts) =>
        readProgram fuel { p with body := p.body ++ [withSemicolon stmt] } ts
      | some (stmt, ts) =>
        if endsWithBlock stmt || ts.isEmpty then
          readProgram fuel { p with body := p.body ++ [stmt] } ts
        else none := rfl

/-- Import lines are read one after another, and then what is behind them. -/
theorem readProgram_imports {names : List String}
    (h : readProgram fuel p (Stmt.tokensOfBlock (names.map importStmt) ++ ts) = some q) :
    ∃ fuel', readProgram fuel' { p with body := p.body ++ names.map importStmt } ts = some q := by
  induction names generalizing fuel p with
  | nil => exact ⟨fuel, by simpa [Stmt.tokensOfBlock] using h⟩
  | cons name names ih =>
    cases fuel with
    | zero => cases h
    | succ fuel =>
      let behind := Stmt.tokensOfBlock (names.map importStmt) ++ ts
      let line : List Token :=
        .word "import" :: .text name :: .word "as" :: .word name :: .mark .semicolon :: behind
      have line' : Stmt.tokensOfBlock ((name :: names).map importStmt) ++ ts = line := rfl
      rw [line', readProgram_import] at h
      cases found : readStmt fuel maxNesting line with
      | none =>
        rw [found] at h
        cases h
      | some r =>
        have read : r = (importStmt name, .mark .semicolon :: behind) := by
          obtain ⟨fuel', simple⟩ := readStmt_word (by decide) found
          obtain ⟨r', named, rfl⟩ := Option.map_eq_some_iff.1 simple
          cases readName_word named
          rfl
        cases read
        rw [found] at h
        obtain ⟨fuel', others⟩ := ih h
        refine ⟨fuel', ?_⟩
        rw [← others]
        simp [withSemicolon, importStmt]

/-- A text whose tokens are those of import lines and legible functions, if it is a program at all,
is the program of these, and no two of its functions could be confused. -/
theorem ofText?_eq {text : String} {names : List String}
    (legible : ∀ f ∈ functions, f.isLegible = true)
    (lexes : Lexes endsLine text
      (Stmt.tokensOfBlock (names.map importStmt) ++ functionsTokens functions))
    (h : Program.ofText? text = some p) :
    p = ⟨functions.map Function.flat, names.map importStmt⟩ ∧ p.Distinct := by
  obtain ⟨tokens, cut, h⟩ := Option.bind_eq_some_iff.1 h
  have same : tokens = Stmt.tokensOfBlock (names.map importStmt) ++ functionsTokens functions :=
    lexes.eq_of_tokens? cut
  subst same
  unfold Program.ofTokens? at h
  obtain ⟨read, -⟩ := Option.filter_eq_some_iff.1 h
  obtain ⟨fuel, read⟩ := readProgram_imports read
  exact readProgram_functions legible read List.nodup_nil

end Pipewright.Script
