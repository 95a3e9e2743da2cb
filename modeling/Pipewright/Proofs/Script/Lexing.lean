import Mathlib.Data.List.Basic
import Pipewright.Script.Lexer
import Pipewright.Script.Quoted

/-! # What texts are cut into
A text that stands in front of another one is cut into tokens of its own, unless the whole is no
program at all. Which characters may follow depends on the last token: a word must not go on, and no
sign may make a longer one of the last. -/

namespace Pipewright.Script

open Lexer

/-! ## Cutting one token -/

/-- Outside of remarks, what is no slash starts none. -/
theorem skipTrivia_cons {c : Char} (slash : c ≠ '/') (rest : List Char) :
    skipTrivia false (c :: rest) =
      if Text.isBlankChar c then skipTrivia false rest else c :: rest := by
  rw [skipTrivia.eq_def]
  split
  · next e => cases e
  · next e _ => cases e
  · next e => exact absurd (List.cons.inj e).1 slash
  · next e =>
    cases e
    rfl

/-- Cutting goes on behind the blanks and remarks with the token that stands there. -/
theorem Lexer.tokens?_eq (cs : List Char) :
    tokens? cs =
      match skipTrivia false cs with
      | [] => some []
      | c :: rest =>
        match read? (c :: rest) with
        | none => none
        | some (token, rest') => (tokens? rest').map (token :: ·) := by
  rw [tokens?.eq_def]
  split
  · next e => simp only [e]
  · next c rest e =>
    simp only [e]
    split
    · next e' => simp only [e']
    · next e' => simp only [e']

/-- Whether a character can follow in every case. -/
def anyChar (_ : Char) : Bool := true

/-- Whether a character ends a word. -/
def endsWord (c : Char) : Bool := !isWordChar c

/-- Whether a character ends any expression. -/
def endsExpr (c : Char) : Bool := !isWordChar c && c != '.' && c != '"'

/-- Whether a character ends a line. -/
def endsLine (c : Char) : Bool := c == '\n'

/-- Whether a token is no word, or a word with a letter before its first digit. -/
def Token.isNamed : Token → Bool
  | .word s => isName s.toList
  | _ => true

/-- A text is cut into tokens if a text follows whose first character, if there is one, is of some
kind; the whole is refused only if there is a word without a letter before its first digit. -/
def Lexes (p : Char → Bool) (s : String) (ts : List Token) : Prop :=
  ∀ rest : List Char, (∀ c ∈ rest.head?, p c = true) →
    tokens? (s.toList ++ rest) = none ∧ ts.all Token.isNamed = false ∨
      tokens? (s.toList ++ rest) = (tokens? rest).map (ts ++ ·)

/-- A text starts with a character of some kind. -/
def Leads (p : Char → Bool) (s : String) : Prop := s.toList.head?.any p = true

/-- The first character of a text that starts with one of some kind. -/
theorem Leads.exists_cons {p : Char → Bool} {s : String} (h : Leads p s) :
    ∃ c cs, s.toList = c :: cs ∧ p c = true := by
  unfold Leads at h
  cases e : s.toList with
  | nil =>
    rw [e] at h
    cases h
  | cons c cs =>
    rw [e] at h
    exact ⟨c, cs, rfl, h⟩

/-- A text whose first character is of some kind starts with one. -/
theorem Leads.of_cons {p : Char → Bool} {s : String} {c : Char} {r : List Char}
    (e : s.toList = c :: r) (h : p c = true) : Leads p s := by
  unfold Leads
  rw [e]
  exact h

namespace Lexes

variable {p q : Char → Bool} {s s' : String} {ts ts' : List Token}

/-- What may be followed by more may be followed by less. -/
theorem mono (h : Lexes p s ts) (sub : ∀ c, q c = true → p c = true) : Lexes q s ts :=
  fun rest follows => h rest fun c m => sub c (follows c m)

/-- The empty text has no tokens. -/
theorem empty (p : Char → Bool) : Lexes p "" [] := by
  intro rest _
  right
  show tokens? rest = (tokens? rest).map fun ts => ts
  exact Option.map_id'.symm

/-- One text behind another that may be followed by how the second one starts. -/
theorem append_of (h : Lexes p s ts) (h' : Lexes q s' ts')
    (starts : ∀ rest : List Char, (∀ c ∈ rest.head?, q c = true) →
      ∀ c ∈ (s'.toList ++ rest).head?, p c = true) : Lexes q (s ++ s') (ts ++ ts') := by
  intro rest follows
  rw [String.toList_append, List.append_assoc]
  rw [List.all_append]
  rcases h (s'.toList ++ rest) (starts rest follows) with ⟨none, unnamed⟩ | cut
  · exact .inl ⟨none, by rw [unnamed, Bool.false_and]⟩
  · rw [cut]
    rcases h' rest follows with ⟨none, unnamed⟩ | cut'
    · exact .inl ⟨by rw [none]; rfl, by rw [unnamed, Bool.and_false]⟩
    · right
      rw [cut', Option.map_map]
      simp only [Function.comp_def, List.append_assoc]

/-- One text behind another that may be followed by anything. -/
theorem append_any (h : Lexes anyChar s ts) (h' : Lexes q s' ts') :
    Lexes q (s ++ s') (ts ++ ts') :=
  h.append_of h' fun _ _ _ _ => rfl

/-- One text behind another that may be followed by its first character. -/
theorem append (h : Lexes p s ts) (h' : Lexes q s' ts') (leads : Leads p s') :
    Lexes q (s ++ s') (ts ++ ts') := by
  obtain ⟨c, cs, e, ok⟩ := leads.exists_cons
  refine h.append_of h' fun rest _ c' m => ?_
  rw [e] at m
  cases m
  exact ok

/-- Blanks have no tokens. -/
theorem blank (h : Text.isBlank s.toList = true) : Lexes anyChar s [] := by
  intro rest _
  right
  have skipped : skipTrivia false (s.toList ++ rest) = skipTrivia false rest := by
    unfold Text.isBlank at h
    generalize s.toList = cs at h
    induction cs with
    | nil => rfl
    | cons c cs ih =>
      rw [List.all_cons, Bool.and_eq_true] at h
      have slash : c ≠ '/' := by
        rintro rfl
        exact absurd h.1 (by decide)
      rw [List.cons_append, skipTrivia_cons slash, if_pos h.1, ih h.2]
  rw [tokens?_eq, skipped, ← tokens?_eq]
  exact Option.map_id'.symm

/-- A text that starts a token is cut into it, if what is read is the token and the rest. -/
theorem of_read {token : Token} {c : Char} {cs : List Char} (e : s.toList = c :: cs)
    (plain : Text.isBlankChar c = false) (slash : c ≠ '/')
    (h : ∀ rest : List Char, (∀ c ∈ rest.head?, p c = true) →
      read? (s.toList ++ rest) = none ∧ token.isNamed = false ∨
        read? (s.toList ++ rest) = some (token, rest)) :
    Lexes p s [token] := by
  intro rest follows
  have here : skipTrivia false (s.toList ++ rest) = s.toList ++ rest := by
    rw [e, List.cons_append, skipTrivia_cons slash, if_neg (by simp [plain])]
  have first : s.toList ++ rest = c :: (cs ++ rest) := by rw [e, List.cons_append]
  rw [tokens?_eq, here]
  rcases h rest follows with ⟨none, unnamed⟩ | read
  · left
    rw [first] at none ⊢
    simp [none, unnamed]
  · right
    rw [first] at read ⊢
    simp only [read]
    rfl

/-- No tokens are left at the end. -/
theorem tokens?_nil : tokens? [] = some [] := by
  rw [tokens?_eq]
  rfl

/-- What a text is cut into are its tokens. -/
theorem eq_of_tokens? {all : List Token} (h : Lexes p s ts) (cut : tokens? s.toList = some all) :
    all = ts := by
  rcases h [] (by simp) with ⟨none, -⟩ | same
  · rw [List.append_nil, cut] at none
    cases none
  · rw [List.append_nil, cut, tokens?_nil] at same
    simpa using same

/-- A text whose words all have a letter before their first digit is cut into its tokens. -/
theorem tokens?_eq_some (h : Lexes p s ts) (named : ts.all Token.isNamed = true) :
    tokens? s.toList = some ts := by
  rcases h [] (by simp) with ⟨-, unnamed⟩ | cut
  · rw [named] at unnamed
    cases unnamed
  · rw [List.append_nil, tokens?_nil] at cut
    simpa using cut

end Lexes

/-- A word that is read has a letter before its first digit. -/
theorem isNamed_of_read? {cs rest : List Char} {token : Token} (h : read? cs = some (token, rest)) :
    token.isNamed = true := by
  unfold read? at h
  split at h
  · cases h
  next c cs =>
  split at h
  · obtain ⟨_, -, e⟩ := Option.map_eq_some_iff.1 h
    cases e
    rfl
  split at h
  · unfold readNumber at h
    simp only at h
    split at h <;> cases h <;> rfl
  split at h
  · simp only at h
    split at h
    · next named =>
      cases h
      rw [Token.isNamed, String.toList_ofList]
      exact named
    · cases h
  · obtain ⟨_, -, e⟩ := Option.map_eq_some_iff.1 h
    cases e
    rfl

/-- Every word of a text that is cut into tokens has a letter before its first digit. -/
theorem all_isNamed_of_tokens? {cs : List Char} {ts : List Token} (h : tokens? cs = some ts) :
    ts.all Token.isNamed = true := by
  fun_induction tokens? cs generalizing ts with
  | case1 =>
    cases h
    rfl
  | case2 => cases h
  | case3 cs c rest e token rest' found shorter ih =>
    obtain ⟨ts', e', rfl⟩ := Option.map_eq_some_iff.1 h
    rw [List.all_cons, isNamed_of_read? found, ih e']
    rfl

/-- A text is cut into its tokens if each word has a letter before its first digit, and refused
otherwise. -/
theorem Lexes.tokens?_eq_ite {p : Char → Bool} {s : String} {ts : List Token} (h : Lexes p s ts) :
    tokens? s.toList = if ts.all Token.isNamed then some ts else none := by
  cases cut : tokens? s.toList with
  | none =>
    split
    · next named =>
      rw [h.tokens?_eq_some named] at cut
      cases cut
    · rfl
  | some all =>
    cases h.eq_of_tokens? cut
    rw [if_pos (all_isNamed_of_tokens? cut)]

/-! ## Characters -/

/-- Characters are told by their code points. -/
theorem toNat_inj {c d : Char} : c = d ↔ c.toNat = d.toNat :=
  ⟨congrArg _, fun e => Char.ext (UInt32.toNat_inj.1 e)⟩

/-- The code points of digits. -/
theorem isDigit_iff {c : Char} : c.isDigit = true ↔ 48 ≤ c.toNat ∧ c.toNat ≤ 57 := by
  have bounds : '0'.val.toNat = 48 ∧ '9'.val.toNat = 57 := ⟨rfl, rfl⟩
  unfold Char.isDigit
  rw [Bool.and_eq_true, decide_eq_true_eq, decide_eq_true_eq, ge_iff_le, UInt32.le_iff_toNat_le,
    UInt32.le_iff_toNat_le, bounds.1, bounds.2]
  rfl

/-- The code points of characters that start words. -/
theorem isWordStart_iff {c : Char} : isWordStart c = true ↔
    65 ≤ c.toNat ∧ c.toNat ≤ 90 ∨ 97 ≤ c.toNat ∧ c.toNat ≤ 122 ∨ c.toNat = 95 := by
  have bounds : 'A'.val.toNat = 65 ∧ 'Z'.val.toNat = 90 ∧ 'a'.val.toNat = 97 ∧
      'z'.val.toNat = 122 := ⟨rfl, rfl, rfl, rfl⟩
  unfold isWordStart Char.isAlpha Char.isUpper Char.isLower
  simp only [Bool.or_eq_true, Bool.and_eq_true, decide_eq_true_eq, beq_iff_eq,
    UInt32.le_iff_toNat_le, bounds, toNat_inj, or_assoc, ge_iff_le]
  rfl

/-- A word goes on with what starts words and with digits. -/
theorem isWordChar_iff {c : Char} :
    isWordChar c = true ↔ isWordStart c = true ∨ c.isDigit = true := by
  unfold isWordChar isWordStart Char.isAlphanum
  simp only [Bool.or_eq_true]
  grind

/-- The code points of blanks are none of letters, digits and signs. -/
theorem isBlankChar_eq_false {c : Char} (h : 33 ≤ c.toNat) (h' : c.toNat ≤ 126) :
    Text.isBlankChar c = false := by
  unfold Text.isBlankChar
  simp only [Bool.or_eq_false_iff, Bool.and_eq_false_iff, decide_eq_false_iff_not, beq_eq_false_iff_ne]
  omega

/-- Characters up to the first one of another kind. -/
theorem takeWhile_append_of_head {p : Char → Bool} {cs rest : List Char}
    (all : ∀ c ∈ cs, p c = true) (stop : ∀ c ∈ rest.head?, p c = false) :
    (cs ++ rest).takeWhile p = cs ∧ (cs ++ rest).dropWhile p = rest := by
  have none : rest.takeWhile p = [] ∧ rest.dropWhile p = rest := by
    cases rest with
    | nil => exact ⟨rfl, rfl⟩
    | cons c rest => simp [stop c rfl]
  rw [List.takeWhile_append_of_pos all, List.dropWhile_append_of_pos all, none.1, none.2]
  exact ⟨List.append_nil _, rfl⟩

/-! ## Words -/

/-- Whether characters make up a word, letters before digits or not. -/
def isPlainWord (cs : List Char) : Bool :=
  match cs with
  | [] => false
  | c :: rest => isWordStart c && (c :: rest).all isWordChar

/-- What starts a word is no blank, no sign and no digit. -/
theorem isWordStart_spec {c : Char} (h : isWordStart c = true) :
    Text.isBlankChar c = false ∧ c ≠ '/' ∧ c ≠ '"' ∧ c.isDigit = false := by
  rw [isWordStart_iff] at h
  have slash : '/'.toNat = 47 := rfl
  have quote : '"'.toNat = 34 := rfl
  refine ⟨isBlankChar_eq_false (by omega) (by omega), ?_, ?_, ?_⟩
  · rw [ne_eq, toNat_inj, slash]
    omega
  · rw [ne_eq, toNat_inj, quote]
    omega
  · rw [Bool.eq_false_iff, ne_eq, isDigit_iff]
    omega

/-- A word is one token. -/
theorem Lexes.word {s : String} (h : isPlainWord s.toList = true) :
    Lexes endsWord s [.word s] := by
  cases e : s.toList with
  | nil =>
    rw [e] at h
    cases h
  | cons c cs =>
    rw [e] at h
    obtain ⟨start, all⟩ := Bool.and_eq_true_iff.1 h
    obtain ⟨plain, slash, quote, digit⟩ := isWordStart_spec start
    refine .of_read e plain slash fun rest follows => ?_
    obtain ⟨taken, dropped⟩ : (c :: cs ++ rest).takeWhile isWordChar = c :: cs ∧
        (c :: cs ++ rest).dropWhile isWordChar = rest := by
      refine takeWhile_append_of_head (List.all_eq_true.1 all) fun c m => ?_
      simpa [endsWord] using follows c m
    rw [e]
    have opened : read? (c :: cs ++ rest) =
        if isName ((c :: cs ++ rest).takeWhile isWordChar) then
          some (.word (String.ofList ((c :: cs ++ rest).takeWhile isWordChar)),
            (c :: cs ++ rest).dropWhile isWordChar)
        else none := by
      show (if c = '"' then _ else _) = _
      rw [if_neg quote, if_neg (by simp [digit]), if_pos start]
      rfl
    rw [opened, taken, dropped, ← e, String.ofList_toList, e]
    cases name : isName (c :: cs) with
    | true => exact .inr rfl
    | false =>
      have unnamed : (Token.word s).isNamed = false := by
        show isName s.toList = false
        rw [e, name]
      exact .inl ⟨rfl, unnamed⟩

/-! ## Signs -/

/-- How a token of signs is written. -/
def Mark.text : Mark → String
  | .openParen => "("
  | .closeParen => ")"
  | .openBracket => "["
  | .closeBracket => "]"
  | .openBrace => "\x7b"
  | .closeBrace => "\x7d"
  | .openMap => "#\x7b"
  | .comma => ","
  | .semicolon => ";"
  | .colon => ":"
  | .path => "::"
  | .dot => "."
  | .set => "="
  | .add => "+="
  | .subtract => "-="
  | .equal => "=="
  | .differ => "!="
  | .greater => ">"
  | .plus => "+"
  | .minus => "-"
  | .not => "!"
  | .both => "&&"
  | .either => "||"

/-- Whether a character makes no longer sign of one. -/
def Mark.ends : Mark → Char → Bool
  | .colon, c => c != ':'
  | .set, c => c != '='
  | .plus, c => c != '='
  | .minus, c => c != '='
  | .not, c => c != '='
  | _, _ => true

/-- The signs of a token are cut into it. -/
theorem readMark?_text (m : Mark) (rest : List Char) (follows : ∀ c ∈ rest.head?, m.ends c = true) :
    readMark? (m.text.toList ++ rest) = some (m, rest) := by
  cases rest with
  | nil => cases m <;> rfl
  | cons c rest =>
    have follow := follows c rfl
    cases m <;> first | rfl | (simp [Mark.ends] at follow; simp [Mark.text, readMark?, follow])

/-- A sign is no blank, and starts neither a text, a number nor a word. -/
theorem Mark.text_spec (m : Mark) : ∃ c cs, m.text.toList = c :: cs ∧
    Text.isBlankChar c = false ∧ c ≠ '/' ∧ c ≠ '"' ∧ c.isDigit = false ∧ isWordStart c = false := by
  cases m <;> exact ⟨_, _, rfl, by decide⟩

/-- Signs are one token. -/
theorem Lexes.mark (m : Mark) : Lexes m.ends m.text [.mark m] := by
  obtain ⟨c, cs, e, plain, slash, quote, digit, start⟩ := m.text_spec
  refine .of_read e plain slash fun rest follows => .inr ?_
  have read := readMark?_text m rest follows
  rw [e, List.cons_append] at read ⊢
  show (if c = '"' then _ else _) = _
  rw [if_neg quote, if_neg (by simp [digit]), if_neg (by simp [start]), read]
  rfl

/-! ## Quoted texts -/

/-- A control character is read from its code point. -/
theorem charOf?_control {c : Char} (h : isControl c = true) :
    ∃ a b c' d, Json.fourHexDigits c.toNat = [a, b, c', d] ∧
      (Json.fourHexValue? a b c' d).bind charOf? = some c := by
  have small : c.toNat < 160 := by
    unfold isControl at h
    simp only [Bool.or_eq_true, Bool.and_eq_true, decide_eq_true_eq] at h
    omega
  have each : ∀ n < 160, (Json.fourHexValue? (Nat.digitChar (n / 4096 % 16))
      (Nat.digitChar (n / 256 % 16)) (Nat.digitChar (n / 16 % 16)) (Nat.digitChar (n % 16))).bind
        charOf? = some (Char.ofNat n) := by decide +kernel
  refine ⟨_, _, _, _, rfl, ?_⟩
  rw [each _ small, Char.ofNat_toNat]

/-- A character is read from its code point behind a backslash. -/
theorem readText?_code {a b c d ch : Char} (rest : List Char)
    (found : (Json.fourHexValue? a b c d).bind charOf? = some ch) :
    readText? ('\\' :: 'u' :: a :: b :: c :: d :: rest) =
      (readText? rest).map fun (text, rest) => (ch :: text, rest) := by
  rw [readText?.eq_def]
  simp only [found]

/-- A character that is no sign of its own stands for itself. -/
theorem readText?_plain {c : Char} (rest : List Char) (quote : c ≠ '"') (backslash : c ≠ '\\')
    (newline : c ≠ '\n') :
    readText? (c :: rest) = (readText? rest).map fun (text, rest) => (c :: text, rest) := by
  rw [readText?.eq_def]
  split
  · next e => cases e
  · next e => exact absurd (List.cons.inj e).1 quote
  · next e => exact absurd (List.cons.inj e).1 quote
  · next e => exact absurd (List.cons.inj e).1 backslash
  · next e => exact absurd (List.cons.inj e).1 backslash
  · next e =>
    cases e
    rw [if_neg (by simp [newline, backslash])]

/-- A single quote ends a text. -/
theorem readText?_close {rest : List Char} (single : ∀ more, rest ≠ '"' :: more) :
    readText? ('"' :: rest) = some ([], rest) := by
  rw [readText?.eq_def]
  split
  · next e => cases e
  · next e =>
    cases e
    exact absurd rfl (single _)
  · next e =>
    cases e
    rfl
  · next e => cases e
  · next e => cases e
  · next _ quote _ _ e =>
    cases e
    exact (quote rfl).elim

/-- An escaped character is read back. -/
theorem readText?_escape (c : Char) (rest : List Char) :
    readText? (escape c ++ rest) = (readText? rest).map fun (text, rest) => (c :: text, rest) := by
  unfold escape
  split
  · next e =>
    subst e
    rfl
  split
  · next e =>
    subst e
    rfl
  split
  · next e =>
    subst e
    rfl
  split
  · next e =>
    subst e
    rfl
  split
  · next e =>
    subst e
    rfl
  split
  · next control =>
    obtain ⟨a, b, c', d, e, found⟩ := charOf?_control control
    rw [e]
    exact readText?_code rest found
  · next backslash quote newline _ _ _ =>
    exact readText?_plain rest quote backslash newline

/-- A quoted text is read back. -/
theorem readText?_quote (cs rest : List Char) (follows : ∀ c ∈ rest.head?, (c != '"') = true) :
    readText? (cs.flatMap escape ++ ('"' :: rest)) = some (cs, rest) := by
  induction cs with
  | nil =>
    cases rest with
    | nil => rfl
    | cons c rest =>
      have apart : c ≠ '"' := by simpa using follows c rfl
      exact readText?_close fun _ e => apart (List.cons.inj e).1
  | cons c cs ih =>
    rw [List.flatMap_cons, List.append_assoc, readText?_escape, ih]
    rfl

/-- A quoted text starts with a quote. -/
theorem toList_quoted (text : String) :
    (quoted text).toList = '"' :: (text.toList.flatMap escape ++ ['"']) := by
  rw [quoted, String.toList_ofList]
  rfl

/-- A quoted text is read as the text, in front of anything but a further quote. -/
theorem read?_quoted (text : String) {rest : List Char} (follows : ∀ c ∈ rest.head?, (c != '"') = true) :
    read? ((quoted text).toList ++ rest) = some (.text text, rest) := by
  rw [toList_quoted, List.cons_append, List.append_assoc, List.singleton_append]
  show ((readText? _).map _) = _
  rw [readText?_quote _ _ follows]
  simp only [Option.map_some, String.ofList_toList]

/-- A quoted text is one token. -/
theorem Lexes.quoted (text : String) : Lexes (· != '"') (quoted text) [.text text] :=
  .of_read (toList_quoted text) (by decide) (by decide) fun _ follows => .inr (read?_quoted text follows)

/-! ## Whole numbers -/

/-- The digits of a number make it up. -/
theorem readDigits_toString (n : Nat) : Decimal.readDigits 0 (toString n).toList = n := by
  rw [Nat.toString_eq_ofList_toDigits, String.toList_ofList]
  exact Nat.ofDigitChars_ten_toDigits

/-- Where an expression ends, so does a number. -/
theorem endsExpr_spec {c : Char} (h : endsExpr c = true) :
    isWordChar c = false ∧ c ≠ '.' ∧ c ≠ '"' := by
  simpa [endsExpr, and_assoc] using h

/-- A number is written with at least one digit, and with digits only. -/
theorem toString_digits (n : Nat) : (∀ c ∈ (toString n).toList, c.isDigit = true) ∧
    ∃ c cs, (toString n).toList = c :: cs := by
  rw [Nat.toString_eq_ofList_toDigits, String.toList_ofList]
  refine ⟨fun c m => Nat.isDigit_of_mem_toDigits (by decide) (by decide) m, ?_⟩
  cases e : Nat.toDigits 10 n with
  | nil => exact absurd e (Nat.toDigits_ne_nil)
  | cons c cs => exact ⟨c, cs, rfl⟩

/-- A digit is no blank, and starts neither a text nor a remark. -/
theorem isDigit_spec {c : Char} (h : c.isDigit = true) :
    Text.isBlankChar c = false ∧ c ≠ '/' ∧ c ≠ '"' := by
  rw [isDigit_iff] at h
  have slash : '/'.toNat = 47 := rfl
  have quote : '"'.toNat = 34 := rfl
  refine ⟨isBlankChar_eq_false (by omega) (by omega), ?_, ?_⟩
  · rw [ne_eq, toNat_inj, slash]
    omega
  · rw [ne_eq, toNat_inj, quote]
    omega

/-- Digits in front of what is no part of a number are split off as a whole. -/
theorem splitNumber_append {digits rest : List Char} (all : ∀ c ∈ digits, c.isDigit = true)
    (stop : ∀ c ∈ rest.head?, (c.isDigit || c == '_') = false) :
    splitNumber (digits ++ rest) = (digits, rest) := by
  have all' : ∀ c ∈ digits, (c.isDigit || c == '_') = true := fun c m => by simp [all c m]
  obtain ⟨taken, dropped⟩ := takeWhile_append_of_head all' stop
  unfold splitNumber
  simp only
  rw [taken, dropped, List.filter_eq_self.2 all]

/-- A character that ends an expression is no part of a number. -/
theorem not_number_of_endsExpr {c : Char} (h : endsExpr c = true) :
    (c.isDigit || c == '_') = false ∧ c ≠ '.' ∧ c ≠ 'e' := by
  obtain ⟨word, dot, -⟩ := endsExpr_spec h
  refine ⟨?_, dot, ?_⟩
  · have notWord : ¬ isWordChar c = true := by simp [word]
    rw [isWordChar_iff, not_or] at notWord
    have underscore : c ≠ '_' := by
      rintro rfl
      exact absurd word (by decide)
    simp [notWord.2, underscore]
  · rintro rfl
    exact absurd word (by decide)

/-- A whole number is one token. -/
theorem Lexes.digits (n : Nat) : Lexes endsExpr (toString n) [.digits n] := by
  obtain ⟨all, c, cs, e⟩ := toString_digits n
  have digit : c.isDigit = true := all c (e ▸ List.mem_cons_self)
  obtain ⟨plain, slash, quote⟩ := isDigit_spec digit
  refine .of_read e plain slash fun rest follows => .inr ?_
  have split : splitNumber ((toString n).toList ++ rest) = ((toString n).toList, rest) :=
    splitNumber_append all fun c m => (not_number_of_endsExpr (follows c m)).1
  have fraction : splitFraction rest = ([], rest) := by
    cases rest with
    | nil => rfl
    | cons c rest =>
      have dot := (not_number_of_endsExpr (follows c rfl)).2.1
      unfold splitFraction
      simp [dot]
  have power : splitPower rest = ([], rest) := by
    cases rest with
    | nil => rfl
    | cons c rest =>
      have exponent := (not_number_of_endsExpr (follows c rfl)).2.2
      unfold splitPower
      simp [exponent]
  have number : readNumber ((toString n).toList ++ rest) = (.digits n, rest) := by
    unfold readNumber
    simp only [split, fraction, power, List.isEmpty_nil, Bool.and_self, if_true,
      readDigits_toString]
  rw [e, List.cons_append] at number ⊢
  show (if c = '"' then _ else _) = _
  rw [if_neg quote, if_pos digit, number]

/-! ## Remarks -/

/-- The rest of a line behind two slashes is skipped. -/
theorem skipTrivia_remark {cs rest : List Char} (h : ∀ c ∈ cs, c ≠ '\n' ∧ c ≠ '\r')
    (follows : ∀ c ∈ rest.head?, endsLine c = true) :
    skipTrivia true (cs ++ rest) = skipTrivia false rest := by
  induction cs with
  | nil =>
    cases rest with
    | nil => rfl
    | cons c rest =>
      have newline : c = '\n' := by simpa [endsLine] using follows c rfl
      subst newline
      rfl
  | cons c cs ih =>
    obtain ⟨newline, back⟩ := h c List.mem_cons_self
    rw [List.cons_append, skipTrivia.eq_def]
    simp only
    rw [if_neg (by simp [newline, back])]
    exact ih fun c m => h c (List.mem_cons_of_mem _ m)

/-- A remark has no tokens. -/
theorem Lexes.remark {s : String} (h : ∀ c ∈ s.toList, c ≠ '\n' ∧ c ≠ '\r') :
    Lexes endsLine ("//" ++ s) [] := by
  intro rest follows
  right
  have skipped : skipTrivia false (("//" ++ s).toList ++ rest) = skipTrivia false rest := by
    rw [String.toList_append, List.append_assoc]
    exact skipTrivia_remark h follows
  rw [tokens?_eq, skipped, ← tokens?_eq]
  exact Option.map_id'.symm

end Pipewright.Script
