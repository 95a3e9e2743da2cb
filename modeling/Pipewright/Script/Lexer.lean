import Pipewright.Decimal.Reading
import Pipewright.Json.Reader
import Pipewright.Script.Identifier
import Pipewright.Text.Basic

/-! # Cutting a program into tokens
Tokens are the smallest meaningful parts of a program. A program's text is read as a list of them,
without blanks and remarks. A remark starts with two slashes and ends with its line. Quoted texts
cannot run over several lines; inside them a quote is written behind a backslash or twice. -/

namespace Pipewright.Script

/-- A token of signs. -/
inductive Mark where
  | openParen | closeParen | openBracket | closeBracket | openBrace | closeBrace | openMap
  | comma | semicolon | colon | path | dot
  | set | add | subtract
  | equal | differ | greater | plus | minus | not | both | either
deriving DecidableEq, Repr

/-- A token. -/
inductive Token where
  /-- A word: a name or a word of the language's own. -/
  | word (name : String)
  /-- Digits. -/
  | digits (n : Nat)
  /-- Digits with a fraction or an exponent. -/
  | decimal (x : Float)
  /-- A text in quotes. -/
  | text (text : String)
  /-- Signs. -/
  | mark (mark : Mark)
deriving BEq

namespace Lexer

/-- Drop blanks and remarks; the flag says whether the text starts within a remark. -/
def skipTrivia : Bool → List Char → List Char
  | _, [] => []
  | true, c :: rest =>
    if c = '\n' || c = '\r' then skipTrivia false rest else skipTrivia true rest
  | false, '/' :: '/' :: rest => skipTrivia true rest
  | false, c :: rest => if Text.isBlankChar c then skipTrivia false rest else c :: rest

/-- Dropping never makes a text longer. -/
theorem length_skipTrivia_le (remark : Bool) (cs : List Char) :
    (skipTrivia remark cs).length ≤ cs.length := by
  fun_induction skipTrivia remark cs <;> simp_all <;> omega

/-- The character that a single letter behind a backslash means. -/
def unescape? (c : Char) : Option Char :=
  if c = '"' then some '"'
  else if c = '\\' then some '\\'
  else if c = 'n' then some '\n'
  else if c = 'r' then some '\r'
  else if c = 't' then some '\t'
  else none

/-- The character of a code point, unless it is a surrogate. -/
def charOf? (n : Nat) : Option Char :=
  if n < 0xD800 || 0xE000 ≤ n then some (Char.ofNat n) else none

/-- The characters of a quoted text and what follows its closing quote. The opening quote is
already gone. -/
def readText? : List Char → Option (List Char × List Char)
  | [] => none
  -- two quotes in a row are one quote of the text, and do not end it
  | '"' :: '"' :: rest => (readText? rest).map fun (text, rest) => ('"' :: text, rest)
  | '"' :: rest => some ([], rest)
  | '\\' :: 'u' :: a :: b :: c :: d :: rest =>
    match (Json.fourHexValue? a b c d).bind charOf? with
    | none => none
    | some ch => (readText? rest).map fun (text, rest) => (ch :: text, rest)
  | '\\' :: c :: rest =>
    match unescape? c with
    | none => none
    | some ch => (readText? rest).map fun (text, rest) => (ch :: text, rest)
  | c :: rest =>
    if c = '\n' || c = '\\' then none
    else (readText? rest).map fun (text, rest) => (c :: text, rest)

/-- What follows a quoted text is shorter than where it starts. -/
theorem length_lt_of_readText? {cs text rest : List Char} (h : readText? cs = some (text, rest)) :
    rest.length < cs.length := by
  fun_induction readText? cs generalizing text rest <;>
    simp_all only [Option.map_eq_some_iff, Option.some.injEq, Prod.mk.injEq, reduceCtorEq] <;>
    grind

/-- Digits, among which underscores may stand, and what follows them. -/
def splitNumber (cs : List Char) : List Char × List Char :=
  let isDigit (c : Char) : Bool := c.isDigit || c == '_'
  ((cs.takeWhile isDigit).filter Char.isDigit, cs.dropWhile isDigit)

/-- A fraction with its point, if there is one, and what follows it. -/
def splitFraction (cs : List Char) : List Char × List Char :=
  match cs with
  | '.' :: c :: rest =>
    -- without a digit behind it, the point belongs to a field or a call
    if c.isDigit then
      let (digits, rest) := splitNumber (c :: rest)
      ('.' :: digits, rest)
    else ([], cs)
  | _ => ([], cs)

/-- An exponent with its letter and sign, if there is one, and what follows it. -/
def splitPower (cs : List Char) : List Char × List Char :=
  match cs with
  | 'e' :: c :: rest =>
    if c.isDigit then
      let (digits, rest) := splitNumber (c :: rest)
      ('e' :: digits, rest)
    else if c = '-' || c = '+' then
      -- without a digit behind it, the sign is an operator
      match splitNumber rest with
      | ([], _) => ([], cs)
      | (digits, rest) => ('e' :: c :: digits, rest)
    else ([], cs)
  | _ => ([], cs)

/-- A number and what follows it. -/
def readNumber (cs : List Char) : Token × List Char :=
  let (whole, afterWhole) := splitNumber cs
  let (fraction, afterFraction) := splitFraction afterWhole
  let (power, rest) := splitPower afterFraction
  if fraction.isEmpty && power.isEmpty then (.digits (Decimal.readDigits 0 whole), rest)
  else (.decimal ((Decimal.readUnsigned? false (whole ++ fraction ++ power)).getD 0), rest)

/-- Signs at the start of a text, as many as make up one token, and what follows them. -/
def readMark? : List Char → Option (Mark × List Char)
  | '#' :: '\x7b' :: rest => some (.openMap, rest)
  | ':' :: ':' :: rest => some (.path, rest)
  | '=' :: '=' :: rest => some (.equal, rest)
  | '!' :: '=' :: rest => some (.differ, rest)
  | '&' :: '&' :: rest => some (.both, rest)
  | '|' :: '|' :: rest => some (.either, rest)
  | '+' :: '=' :: rest => some (.add, rest)
  | '-' :: '=' :: rest => some (.subtract, rest)
  | '(' :: rest => some (.openParen, rest)
  | ')' :: rest => some (.closeParen, rest)
  | '[' :: rest => some (.openBracket, rest)
  | ']' :: rest => some (.closeBracket, rest)
  | '\x7b' :: rest => some (.openBrace, rest)
  | '\x7d' :: rest => some (.closeBrace, rest)
  | ',' :: rest => some (.comma, rest)
  | ';' :: rest => some (.semicolon, rest)
  | ':' :: rest => some (.colon, rest)
  | '.' :: rest => some (.dot, rest)
  | '=' :: rest => some (.set, rest)
  | '>' :: rest => some (.greater, rest)
  | '+' :: rest => some (.plus, rest)
  | '-' :: rest => some (.minus, rest)
  | '!' :: rest => some (.not, rest)
  | _ => none

/-- The token at the start of a text and what follows it. -/
def read? (cs : List Char) : Option (Token × List Char) :=
  match cs with
  | [] => none
  | c :: rest =>
    if c = '"' then (readText? rest).map fun (text, rest) => (.text (String.ofList text), rest)
    else if c.isDigit then some (readNumber (c :: rest))
    else if isWordStart c then
      let word := (c :: rest).takeWhile isWordChar
      if isName word then some (.word (String.ofList word), (c :: rest).dropWhile isWordChar)
      else none
    else (readMark? (c :: rest)).map fun (mark, rest) => (.mark mark, rest)

/-! ## Every token takes a character -/

theorem length_splitNumber_le (cs : List Char) : (splitNumber cs).2.length ≤ cs.length :=
  (List.dropWhile_sublist _).length_le

theorem length_splitNumber_lt {c : Char} (h : c.isDigit = true) (rest : List Char) :
    (splitNumber (c :: rest)).2.length < (c :: rest).length := by
  have := (List.dropWhile_sublist (fun c : Char => c.isDigit || c == '_') (l := rest)).length_le
  simp only [splitNumber, List.dropWhile_cons, h, Bool.true_or, if_true, List.length_cons]
  omega

theorem length_splitFraction_le (cs : List Char) : (splitFraction cs).2.length ≤ cs.length := by
  unfold splitFraction
  split
  · next c rest =>
    split
    · have := length_splitNumber_le (c :: rest)
      simp only [List.length_cons] at *
      omega
    · exact Nat.le_refl _
  · exact Nat.le_refl _

theorem length_splitPower_le (cs : List Char) : (splitPower cs).2.length ≤ cs.length := by
  unfold splitPower
  split
  · next c rest =>
    have whole := length_splitNumber_le (c :: rest)
    have behind := length_splitNumber_le rest
    split
    · simp only [List.length_cons] at *
      omega
    · split
      · split
        · exact Nat.le_refl _
        · next digits rest' _ e =>
          simp only [e, List.length_cons] at *
          omega
      · exact Nat.le_refl _
  · exact Nat.le_refl _

theorem length_readNumber_lt {c : Char} (h : c.isDigit = true) (rest : List Char) :
    (readNumber (c :: rest)).2.length < (c :: rest).length := by
  have whole := length_splitNumber_lt h rest
  have fraction := length_splitFraction_le (splitNumber (c :: rest)).2
  have power := length_splitPower_le (splitFraction (splitNumber (c :: rest)).2).2
  unfold readNumber
  simp only
  split <;> simp only <;> omega

theorem length_lt_of_readMark? {cs rest : List Char} {mark : Mark}
    (h : readMark? cs = some (mark, rest)) : rest.length < cs.length := by
  unfold readMark? at h
  split at h <;> simp only [Option.some.injEq, Prod.mk.injEq, reduceCtorEq] at h <;>
    (obtain ⟨-, rfl⟩ := h; simp only [List.length_cons]; omega)

/-- What follows a token is shorter than where it starts. -/
theorem length_lt_of_read? {cs rest : List Char} {token : Token}
    (h : read? cs = some (token, rest)) : rest.length < cs.length := by
  cases cs with
  | nil => simp [read?] at h
  | cons c tail =>
    unfold read? at h
    simp only at h
    split at h
    · obtain ⟨⟨text, rest'⟩, found, e⟩ := Option.map_eq_some_iff.1 h
      obtain ⟨-, rfl⟩ := Prod.mk.inj e
      have := length_lt_of_readText? found
      simp only [List.length_cons]
      omega
    · split at h
      · next digit =>
        have e := Option.some.inj h
        have := length_readNumber_lt digit tail
        rw [e] at this
        exact this
      · split at h
        · next start =>
          split at h
          · obtain ⟨-, rfl⟩ := Prod.mk.inj (Option.some.inj h)
            have char : isWordChar c = true := by
              simp only [isWordStart, isWordChar, Char.isAlphanum, Bool.or_eq_true] at start ⊢
              rcases start with start | start <;> simp [start]
            have := (List.dropWhile_sublist isWordChar (l := tail)).length_le
            simp only [List.dropWhile_cons, char, if_true, List.length_cons]
            omega
          · simp at h
        · obtain ⟨⟨mark, rest'⟩, found, e⟩ := Option.map_eq_some_iff.1 h
          obtain ⟨-, rfl⟩ := Prod.mk.inj e
          exact length_lt_of_readMark? found

/-- All tokens of a text. -/
def tokens? (cs : List Char) : Option (List Token) :=
  match trivia : skipTrivia false cs with
  | [] => some []
  | c :: rest =>
    match step : read? (c :: rest) with
    | none => none
    | some (token, rest') =>
      have : rest'.length < cs.length := by
        have short := length_lt_of_read? step
        have skipped := length_skipTrivia_le false cs
        rw [trivia] at skipped
        omega
      (tokens? rest').map (token :: ·)
termination_by cs.length

end Lexer

end Pipewright.Script
