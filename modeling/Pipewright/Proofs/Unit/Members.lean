import Pipewright.Proofs.Script.Data
import Pipewright.Proofs.Unit.Copying
import Pipewright.Proofs.Unit.Legible
import Pipewright.Proofs.Unit.Steps

/-! # Members by their spellings
A field of a variable, an assignment to it and a map of one entry are programs exactly if the name of
the field is one that the language takes, where it is written without quotes. Then they mean the
field that they name. -/

namespace Pipewright

open Host (Environment Caller Yields evalBlock)
open Script (Expr Stmt Program Token Lexes Leads isIdentifier isName fieldText keyText keyToken endsWord
  StartsExpr extendsName extendsOperand stopsAt maxNesting isPlainWord_of_isIdentifier)
open Script.Parser

variable {v x f : String} {e : Expr} {fuel room : Nat} {rest ts : List Token}

/-! ## Spellings -/

/-- A name is read as it is written: if it is written without quotes, a letter stands before its
first digit. Quoted names always are. -/
def HasSpelling (f : String) : Prop := isIdentifier f = true → isName f.toList = true

instance : Decidable (HasSpelling f) := inferInstanceAs (Decidable (_ → _))

/-- A name that is written without quotes and read as it is written. -/
structure IsVariable (name : String) : Prop where
  /-- It is written without quotes. -/
  identifier : isIdentifier name = true
  /-- A letter stands before its first digit. -/
  named : isName name.toList = true

/-- The tokens of a member behind its target. -/
def memberTokens (f : String) : List Token :=
  if isIdentifier f then [.mark .dot, .word f]
  else [.mark .openBracket, .text f, .mark .closeBracket]

/-- A member has the tokens of its target and its own. -/
theorem tokens_member (e : Expr) (f : String) : (e.member f).tokens = e.tokens ++ memberTokens f := by
  unfold Expr.member memberTokens
  split <;> rfl

/-- All words of a member are names if its own name is. -/
theorem all_isNamed_memberTokens : (memberTokens f).all Token.isNamed = true ↔ HasSpelling f := by
  unfold memberTokens HasSpelling
  by_cases word : isIdentifier f = true <;> simp [Token.isNamed, word]

/-- The key of an entry is a name, or no word. -/
theorem isNamed_keyToken : (keyToken f).isNamed = true ↔ HasSpelling f := by
  unfold keyToken HasSpelling
  by_cases word : isIdentifier f = true <;> simp [Token.isNamed, word]

/-- The text of a field is that of the expression that reads it. -/
theorem fieldText_eq (tab v f : String) : fieldText v f = ((Expr.var v).member f).text tab := by
  unfold fieldText Expr.member Expr.text Text.joinLines
  split <;> simp [Expr.lines, Script.glue, Script.glueAll, String.append_assoc]

/-! ## Reading -/

/-- An identifier is read as a name. -/
theorem readName_of_isIdentifier (h : isIdentifier f = true) (rest : List Token) :
    readName (.word f :: rest) = some (f, rest) :=
  if_neg (by simp [Script.isReserved_of_isIdentifier h])

/-- A variable is read up to its first part. -/
theorem readPrimary_variable (word : isIdentifier v = true) (stop : extendsName rest = false) :
    readPrimary (fuel + 1) room (.word v :: rest) = some (.var v, rest) := by
  obtain ⟨notTrue, notFalse, -⟩ := Script.isNameWord_spec (isNameWord_of_isIdentifier word)
  have found : (readName (.word v :: rest)).map (fun r => (Expr.var r.1, r.2)) =
      some (.var v, rest) := by
    rw [readName_of_isIdentifier word]
    rfl
  rw [← found]
  unfold readPrimary
  grind [extendsName]

/-- A variable behind which nothing goes on is read. -/
theorem readExpr_variable (word : isIdentifier v = true) (whole : extendsOperand rest = false)
    (stop : stopsAt 0 rest = true) :
    readExpr (fuel + 4) room (.word v :: rest) = some (.var v, rest) :=
  Script.readExpr_of_primary rfl whole stop
    (readPrimary_variable word (Script.extendsName_of_extendsOperand whole))

/-- A member is read behind its target. -/
theorem readParts_member (whole : extendsOperand rest = false) :
    readParts (fuel + 9) (room + 1) e (memberTokens f ++ rest) = some (e.member f, rest) := by
  have behind {e : Expr} : readParts (fuel + 8) (room + 1) e rest = some (e, rest) :=
    Script.readParts_of_extendsOperand whole
  unfold memberTokens Expr.member
  by_cases word : isIdentifier f = true
  · rw [if_pos word, if_pos word]
    have read : readMember (.word f :: rest) = some (f, rest) := by
      unfold readMember
      split
      · next same =>
        cases same
        cases whole
      · exact readName_of_isIdentifier word rest
    show readParts (fuel + 8 + 1) (room + 1) e (.mark .dot :: .word f :: rest) = _
    conv => lhs; unfold readParts
    simp only [read]
    split
    · next same => cases same
    · next same =>
      cases same
      cases whole
    · next same =>
      cases same
      exact behind
  · rw [if_neg word, if_neg word]
    have read : readExpr (fuel + 8) room (.text f :: .mark .closeBracket :: rest) =
        some (.str f, .mark .closeBracket :: rest) :=
      Expr.Parses.str f (Nat.le_add_left _ _) (Nat.zero_le _) rfl
    show readParts (fuel + 8 + 1) (room + 1) e
      (.mark .openBracket :: .text f :: .mark .closeBracket :: rest) = _
    conv => lhs; unfold readParts
    simp only [read]
    exact behind

/-- A member is no operator and extends no name. -/
theorem extendsName_memberTokens (f : String) (rest : List Token) :
    extendsName (memberTokens f ++ rest) = false := by
  unfold memberTokens
  split <;> rfl

/-- A member of a variable behind which nothing goes on is read. -/
theorem readExpr_member (word : isIdentifier v = true) (whole : extendsOperand rest = false)
    (stop : stopsAt 0 rest = true) :
    readExpr (fuel + 12) (room + 1) (((Expr.var v).member f).tokens ++ rest) =
      some ((Expr.var v).member f, rest) := by
  have tokens : ((Expr.var v).member f).tokens ++ rest = .word v :: (memberTokens f ++ rest) := by
    rw [tokens_member]
    rfl
  have first : readPrimary (fuel + 9) (room + 1) (.word v :: (memberTokens f ++ rest)) =
      some (.var v, memberTokens f ++ rest) :=
    readPrimary_variable word (extendsName_memberTokens f rest)
  rw [tokens]
  unfold readExpr readLevel
  simp only [Script.readOperand_eq (show Script.startsSigned (.word v :: _) = false from rfl), first,
    readParts_member whole, Script.readOperators_of_stopsAt stop]

/-- The tokens of a statement that holds no block are those of a program with this statement only. -/
theorem ofTokens?_single {stmt : Stmt} (starts : StartsExpr ts)
    (loops : stmt.keepsToLoops false = true)
    (read : ∀ fuel, 8 * ts.length ≤ fuel → readSimple fuel maxNesting ts = some (stmt, [])) :
    Program.ofTokens? ts = some ⟨[], [stmt]⟩ := by
  have found : readStmt (8 * ts.length + 6 + 1) maxNesting ts = some (stmt, []) := by
    rw [Script.readStmt_simple starts]
    exact read _ (Nat.le_add_right _ _)
  obtain ⟨t, tail, rfl, first⟩ := starts
  have noFunction : t ≠ .word "fn" := Script.Token.ne_word_of_startsExpr first _ (by decide)
  have whole : readProgram (8 * (t :: tail).length + 6 + 1 + 1) .empty (t :: tail) =
      some ⟨[], [stmt]⟩ := by
    conv => lhs; unfold readProgram
    split
    · next same => cases same
    · next same =>
      cases same
      cases first
    · next same =>
      cases same
      exact absurd rfl noFunction
    · simp only [found, List.isEmpty_nil, Bool.or_true, if_true]
      unfold readProgram
      rfl
  unfold Program.ofTokens?
  rw [whole]
  simp [Option.filter, Program.keepsToLoops, Script.Stmt.blockKeepsToLoops, loops]

/-! ## Programs of one statement -/

/-- A text whose words are names exactly if a name has its spelling is a program of one statement
exactly then. -/
theorem ofText?_single {p : Char → Bool} {text : String} {stmt : Stmt} (lexes : Lexes p text ts)
    (named : ts.all Token.isNamed = true ↔ HasSpelling f) (starts : StartsExpr ts)
    (loops : stmt.keepsToLoops false = true)
    (read : ∀ fuel, 8 * ts.length ≤ fuel → readSimple fuel maxNesting ts = some (stmt, [])) :
    Program.ofText? text = if HasSpelling f then some ⟨[], [stmt]⟩ else none := by
  unfold Program.ofText?
  rw [lexes.tokens?_eq_ite]
  by_cases spelled : HasSpelling f
  · rw [if_pos spelled, if_pos (named.2 spelled)]
    exact ofTokens?_single starts loops read
  · rw [if_neg spelled, if_neg fun all => spelled (named.1 all)]
    rfl

/-- A member has at least two tokens. -/
theorem two_le_length_memberTokens (f : String) : 2 ≤ (memberTokens f).length := by
  unfold memberTokens
  split
  · exact Nat.le_refl 2
  · exact Nat.le_succ 2

/-- The text of a field is cut into the tokens of the member. -/
theorem lexes_fieldText (word : isIdentifier v = true) (f : String) :
    Lexes endsWord (fieldText v f) (.word v :: memberTokens f) := by
  obtain ⟨legible, target⟩ :=
    @isLegible_member (.var v) (isNameWord_of_isIdentifier word) rfl f
  have spelled := (@Expr.spells "" rfl _ legible).lexes.joinLines
  rw [Expr.ends_of_isTarget target, tokens_member] at spelled
  rw [fieldText_eq ""]
  exact spelled

/-- The words of a member of a variable are names if its own name is. -/
theorem all_isNamed_member (h : IsVariable v) (more : rest.all Token.isNamed = true) :
    (Token.word v :: (memberTokens f ++ rest)).all Token.isNamed = true ↔ HasSpelling f := by
  rw [List.all_cons, List.all_append, more, Bool.and_true, Bool.and_eq_true,
    all_isNamed_memberTokens]
  exact and_iff_right h.named

/-- The text of a field is a program that evaluates the member. -/
theorem ofText?_fieldText (h : IsVariable v) (f : String) :
    Program.ofText? (fieldText v f) =
      if HasSpelling f then some ⟨[], [.value ((Expr.var v).member f)]⟩ else none := by
  have starts : StartsExpr (.word v :: memberTokens f) :=
    Script.startsExpr_word (isNameWord_of_isIdentifier h.identifier) _
  have named := @all_isNamed_member v f [] h rfl
  rw [List.append_nil] at named
  refine ofText?_single (lexes_fieldText h.identifier f) named starts rfl fun fuel enough => ?_
  have two := two_le_length_memberTokens f
  rw [List.length_cons] at enough
  obtain ⟨fuel, rfl⟩ : ∃ fuel', fuel = fuel' + 12 := ⟨fuel - 12, by omega⟩
  have read : readExpr (fuel + 12) maxNesting (.word v :: memberTokens f) =
      some ((Expr.var v).member f, []) := by
    have := @readExpr_member v f fuel 63 [] h.identifier rfl rfl
    rwa [tokens_member, List.append_nil] at this
  rw [Script.readSimple_expr starts, read]

/-- A member of a variable stands for a place. -/
theorem place?_member (v f : String) :
    ((Expr.var v).member f).place? = some (Access.mk v [f]).place := by
  unfold Expr.member Access.place
  rw [List.map_singleton]
  split <;> rfl

/-- The text of an assignment to a field is a program that assigns to the member. -/
theorem ofText?_assignment (h : IsVariable v) (h' : IsVariable x) (f : String) :
    Program.ofText? (fieldText v f ++ " = " ++ x) =
      if HasSpelling f then some ⟨[], [.assign (Access.mk v [f]).place .set (.var x)]⟩ else none := by
  have lexes : Lexes endsWord (fieldText v f ++ " = " ++ x)
      (.word v :: (memberTokens f ++ [Token.mark .set, .word x])) := by
    rw [String.append_assoc]
    have leads : Leads endsWord (" = " ++ x) := (show Leads endsWord " = " from rfl).append x
    exact (lexes_fieldText h.identifier f).append ((Script.lexes_assignment .set).append_any
      (.word (isPlainWord_of_isIdentifier h'.identifier))) leads
  have starts : StartsExpr (.word v :: (memberTokens f ++ [Token.mark .set, .word x])) :=
    Script.startsExpr_word (isNameWord_of_isIdentifier h.identifier) _
  have named : [Token.mark .set, .word x].all Token.isNamed = true := by
    simp [Token.isNamed, h'.named]
  refine ofText?_single lexes (all_isNamed_member h named) starts ?_ fun fuel enough => ?_
  · rfl
  rw [List.length_cons, List.length_append] at enough
  obtain ⟨fuel, rfl⟩ : ∃ fuel', fuel = fuel' + 12 :=
    ⟨fuel - 12, by simp only [List.length_cons] at enough; omega⟩
  have place : readExpr (fuel + 12) maxNesting
      (.word v :: (memberTokens f ++ [Token.mark .set, .word x])) =
        some ((Expr.var v).member f, [Token.mark .set, .word x]) := by
    have := @readExpr_member v f fuel 63 [Token.mark .set, .word x] h.identifier rfl rfl
    rwa [tokens_member] at this
  have value : readExpr (fuel + 12) maxNesting [.word x] = some (.var x, []) :=
    readExpr_variable h'.identifier rfl rfl
  rw [Script.readSimple_expr starts, place]
  simp only [Script.Assignment.ofMark?, place?_member, value, Option.bind_eq_bind, Option.bind_some]
  rfl

/-- The text of an entry between its braces. -/
def entryText (f x : String) : String := "#\x7b " ++ keyText f ++ ": " ++ x ++ " \x7d"

/-- The text of an entry is that of the expression that makes a map of it. -/
theorem entryText_eq (tab f x : String) :
    entryText f x = (Expr.object .inline [(f, .var x)]).text tab := by
  unfold entryText Expr.text Text.joinLines
  simp [Expr.lines, Expr.linesOfEntries, Script.bracketed, Script.separate, Script.glue,
    Script.glueAll, String.append_assoc]

/-- The text of an entry is a program that evaluates a map of it. -/
theorem ofText?_entry (h : IsVariable x) (f : String) :
    Program.ofText? (entryText f x) =
      if HasSpelling f then some ⟨[], [.value (.object .inline [(f, .var x)])]⟩ else none := by
  have lexes : Lexes Script.endsExpr (entryText f x)
      [.mark .openMap, keyToken f, .mark .colon, .word x, .mark .closeBrace] := by
    have legible : (Expr.object .inline [(f, .var x)]).isLegible = true :=
      Expr.isLegible_object (by simpa [Expr.isLegible] using isNameWord_of_isIdentifier h.identifier)
    rw [entryText_eq ""]
    exact (@Expr.spells "" rfl _ legible).weaken.lexes.joinLines
  have starts : StartsExpr [.mark .openMap, keyToken f, .mark .colon, .word x, .mark .closeBrace] :=
    ⟨_, _, rfl, rfl⟩
  have named : [.mark .openMap, keyToken f, .mark .colon, .word x, .mark .closeBrace].all
      Token.isNamed = true ↔ HasSpelling f := by
    rw [← isNamed_keyToken]
    simp [Token.isNamed, h.named]
  refine ofText?_single lexes named starts rfl fun fuel enough => ?_
  obtain ⟨fuel, rfl⟩ : ∃ fuel', fuel = fuel' + 12 :=
    ⟨fuel - 12, by simp only [List.length_cons] at enough; omega⟩
  have value : readExpr (fuel + 7) 63 [.word x, .mark .closeBrace] =
      some (.var x, [.mark .closeBrace]) := readExpr_variable h.identifier rfl rfl
  have entries : readEntries (fuel + 7 + 1) 63 [] [keyToken f, .mark .colon, .word x, .mark .closeBrace] =
      some ([(f, .var x)], []) := by
    rw [Script.readEntries_keyToken List.not_mem_nil, value]
    rfl
  have primary : readPrimary (fuel + 8 + 1) maxNesting
      [.mark .openMap, keyToken f, .mark .colon, .word x, .mark .closeBrace] =
        some (.object .inline [(f, .var x)], []) := by
    unfold readPrimary
    simp only [maxNesting, entries]
    rfl
  have read : readExpr (fuel + 8 + 4) maxNesting
      [.mark .openMap, keyToken f, .mark .colon, .word x, .mark .closeBrace] =
        some (.object .inline [(f, .var x)], []) :=
    Script.readExpr_of_primary rfl rfl rfl primary
  rw [Script.readSimple_expr starts, read]

/-! ## Evaluation -/

/-- A text is a program whose statements come to a value and leave variables behind. -/
def Evaluates (text : String) (s : Entries) (d : Datum) (s' : Entries) : Prop :=
  ∃ p, Program.ofText? text = some p ∧ p.functions = [] ∧ ∀ (env : Environment) (call : Caller)
    (w : World), Yields (evalBlock env call .unit p.body) s w (.ok d) s' w

variable {s : Entries} {m : Entries} {d : Datum}

/-- The text of a field evaluates to the entry of that field, or to nothing. -/
theorem evaluates_fieldText (h : IsVariable v) (spelled : HasSpelling f)
    (there : Keyed.lookup v s = some (.map m)) :
    Evaluates (fieldText v f) s ((Keyed.lookup f m).getD .unit) s := by
  refine ⟨_, (ofText?_fieldText h f).trans (if_pos spelled), rfl, fun env call w => ?_⟩
  exact .block_single rfl (.value (Host.yields_member f (.var there)))

/-- The text of an assignment to a field changes the entry of that field only. -/
theorem evaluates_assignment (h : IsVariable v) (h' : IsVariable x) (spelled : HasSpelling f)
    (there : Keyed.lookup v s = some (.map m)) (there' : Keyed.lookup x s = some d) :
    Evaluates (fieldText v f ++ " = " ++ x) s .unit
      (Keyed.modify v (fun _ => .map (Keyed.insert f d m)) s) := by
  refine ⟨_, (ofText?_assignment h h' f).trans (if_pos spelled), rfl, fun env call w => ?_⟩
  obtain ⟨steps, leads, same⟩ := @Host.yields_path env call s w [f]
  refine .block_single rfl (.assigned (.var there') leads there ?_)
  rw [same]
  rfl

/-- The text of an entry evaluates to the map of this entry only. -/
theorem evaluates_entry (h : IsVariable x) (spelled : HasSpelling f)
    (there : Keyed.lookup x s = some d) :
    Evaluates (entryText f x) s (.map [(f, d)]) s := by
  refine ⟨_, (ofText?_entry h f).trans (if_pos spelled), rfl, fun env call w => ?_⟩
  exact .block_single rfl (.value (.object (.entries_cons (.var there) .entries_nil)))

/-- The spellings of a field mean the field that they name, whatever its name is, if a name that is
written without quotes has a letter before its first digit: reading gives the entry or nothing,
assigning changes this entry, and a map that is spelled with it holds nothing else. Otherwise none
of them is a program. -/
theorem evaluates_of_hasSpelling (h : IsVariable v) (h' : IsVariable x) (f : String) :
    (HasSpelling f → ∀ (s m : Entries) (d : Datum), Keyed.lookup v s = some (.map m) →
      Keyed.lookup x s = some d →
        Evaluates (fieldText v f) s ((Keyed.lookup f m).getD .unit) s ∧
        Evaluates (fieldText v f ++ " = " ++ x) s .unit
          (Keyed.modify v (fun _ => .map (Keyed.insert f d m)) s) ∧
        Evaluates (entryText f x) s (.map [(f, d)]) s) ∧
    (¬ HasSpelling f → ∀ text ∈ [fieldText v f, fieldText v f ++ " = " ++ x, entryText f x],
      Program.ofText? text = none) := by
  refine ⟨fun spelled s m d there there' => ⟨evaluates_fieldText h spelled there,
    evaluates_assignment h h' spelled there there', evaluates_entry h' spelled there'⟩,
    fun unspelled text listed => ?_⟩
  simp only [List.mem_cons, List.not_mem_nil, or_false] at listed
  rcases listed with rfl | rfl | rfl
  · rw [ofText?_fieldText h, if_neg unspelled]
  · rw [ofText?_assignment h h', if_neg unspelled]
  · rw [ofText?_entry h', if_neg unspelled]

/-- Digits alone are quoted, but not behind an underscore. -/
example : HasSpelling "1" ∧ HasSpelling "_a1" ∧ ¬ HasSpelling "_1" := by decide +kernel

end Pipewright
