import Pipewright.Json.Reader
import Pipewright.Text.Quoted

/-! # Quoted texts can be read
Every character of a quoted text can be told from the others and from the closing quote, so two
quoted texts that are alike, whatever follows each of them, are of one text. -/

namespace Pipewright.Text

/-! ## Hexadecimal digits -/

/-- The number that hexadecimal digits stand for. -/
def readHex (digits : List Char) : Nat :=
  digits.foldl (fun n c => 16 * n + (Json.hexValue? c).getD 0) 0

/-- Every hexadecimal digit is read as its value, and none is a brace. -/
theorem hexValue?_digitChar : ∀ n < 16,
    (Json.hexValue? n.digitChar).getD 0 = n ∧ n.digitChar ≠ '\x7d' := by decide

/-- The hexadecimal digits of a number are read as it, and none is a brace. -/
theorem readHex_hexDigits (n : Nat) :
    readHex (hexDigits n) = n ∧ ∀ c ∈ hexDigits n, c ≠ '\x7d' := by
  unfold hexDigits
  induction n using Nat.base_induction 16 (by decide) with
  | single m small =>
    rw [Nat.toDigits_of_lt_base small]
    obtain ⟨value, plain⟩ := hexValue?_digitChar m small
    refine ⟨?_, fun c m => ?_⟩
    · show 16 * 0 + (Json.hexValue? _).getD 0 = m
      rw [value, Nat.mul_zero, Nat.zero_add]
    · rwa [List.mem_singleton.1 m]
  | digit m k small positive ih =>
    rw [← Nat.toDigits_append_toDigits (by decide) positive small, Nat.toDigits_of_lt_base small]
    obtain ⟨value, plain⟩ := hexValue?_digitChar k small
    refine ⟨?_, fun c m => ?_⟩
    · unfold readHex at ih ⊢
      rw [List.foldl_append, ih.1]
      show 16 * m + (Json.hexValue? _).getD 0 = 16 * m + k
      rw [value]
    · rcases List.mem_append.1 m with m | m
      · exact ih.2 c m
      · rwa [List.mem_singleton.1 m]

/-! ## Characters -/

/-- Read the letter behind a backslash. -/
def readLetter (c : Char) : Char :=
  if c = 'n' then '\n'
  else if c = 'r' then '\r'
  else if c = 't' then '\t'
  else if c = '0' then '\x00'
  else c

/-- Read one character of a quoted text. -/
def readQuotedChar : List Char → Option (Char × List Char)
  | [] => none
  | '\\' :: 'u' :: '\x7b' :: rest =>
    some (Char.ofNat (readHex (rest.takeWhile (· ≠ '\x7d'))), (rest.dropWhile (· ≠ '\x7d')).drop 1)
  | '\\' :: c :: rest => some (readLetter c, rest)
  | c :: rest => some (c, rest)

/-- A character is read from how it stands in a quoted text, whatever follows it. -/
theorem readQuotedChar_quotedChar (c : Char) (rest : List Char) :
    readQuotedChar (quotedChar c ++ rest) = some (c, rest) := by
  unfold quotedChar
  split
  · next e => rw [e]; rfl
  split
  · next e => rw [e]; rfl
  split
  · next e => rw [e]; rfl
  split
  · next e => rw [e]; rfl
  split
  · next e => rw [e]; rfl
  split
  · next e => rw [e]; rfl
  split
  · -- the digits end at the brace
    obtain ⟨value, plain⟩ := readHex_hexDigits c.toNat
    have all : ∀ d ∈ hexDigits c.toNat, decide (d ≠ '\x7d') = true :=
      fun d m => decide_eq_true (plain d m)
    have opened : ['\\', 'u', '\x7b'] ++ hexDigits c.toNat ++ ['\x7d'] ++ rest =
        '\\' :: 'u' :: '\x7b' :: (hexDigits c.toNat ++ '\x7d' :: rest) := by simp
    rw [opened, readQuotedChar, List.takeWhile_append_of_pos all, List.dropWhile_append_of_pos all]
    simp [value]
  · next backslash _ _ _ _ _ =>
    rw [List.singleton_append]
    unfold readQuotedChar
    split <;> simp_all

/-- A character in a quoted text is not the closing quote. -/
theorem quotedChar_append_ne (c : Char) (behind rest : List Char) :
    quotedChar c ++ behind ≠ '"' :: rest := by
  unfold quotedChar
  intro h
  repeat' split at h
  all_goals simp_all

/-! ## Texts -/

/-- Quoted texts that are alike, whatever follows each of them, are of one text. -/
theorem quotedChars_append_inj {cs ds rest rest' : List Char}
    (h : quotedChars cs ++ rest = quotedChars ds ++ rest') : cs = ds ∧ rest = rest' := by
  have body : ∀ cs rest, quotedChars cs ++ rest = '"' :: (cs.flatMap quotedChar ++ '"' :: rest) := by
    intro cs rest
    simp [quotedChars]
  rw [body, body] at h
  have behind := (List.cons.inj h).2
  clear h
  induction cs generalizing ds with
  | nil =>
    cases ds with
    | nil => exact ⟨rfl, (List.cons.inj behind).2⟩
    | cons d ds =>
      rw [List.flatMap_cons, List.append_assoc] at behind
      exact absurd behind.symm (quotedChar_append_ne d _ _)
  | cons c cs ih =>
    cases ds with
    | nil =>
      rw [List.flatMap_cons, List.append_assoc] at behind
      exact absurd behind (quotedChar_append_ne c _ _)
    | cons d ds =>
      rw [List.flatMap_cons, List.append_assoc, List.flatMap_cons, List.append_assoc] at behind
      -- both sides are read as their first character and what follows it
      have read := readQuotedChar_quotedChar c (cs.flatMap quotedChar ++ '"' :: rest)
      rw [behind, readQuotedChar_quotedChar] at read
      obtain ⟨rfl, more⟩ := Prod.mk.inj (Option.some.inj read)
      obtain ⟨rfl, same⟩ := ih more.symm
      exact ⟨rfl, same⟩

end Pipewright.Text
