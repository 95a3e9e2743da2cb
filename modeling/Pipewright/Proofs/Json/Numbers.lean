import Pipewright.Proofs.Decimal.Written
import Pipewright.Proofs.Json.Written

/-! # Numbers there and back
A number that is read from its text alone is read from it also where other parts of a document
stand behind it. A whole number of 64 bits always is; whether a floating-point number is depends on
the arithmetic with which its digits are put together. -/

namespace Pipewright

/-- The text of a number, with nothing behind it, is read as the number. -/
def JsonNumber.Kept (n : JsonNumber) : Prop := Json.readNumber? (Json.writeNumber n) = some (n, [])

namespace Json

open Decimal (splitDigits readDigits AllDigits)

variable {n : JsonNumber} {cs rest left digits whole fraction : List Char} {negative : Bool}

/-! ## The parts of a number -/

/-- What is read behind the letter of a power of ten. -/
def readExponent? (negative : Bool) (whole fraction : List Char) (cs : List Char) :
    Option (JsonNumber × List Char) :=
  (splitExponent? cs).bind fun parts =>
    (scaledNumber? negative whole fraction parts.1).bind fun n => some (n, parts.2)

/-- What is read behind the digits of a number: the power of ten, if there is one. -/
def readPower? (negative : Bool) (whole fraction : List Char) (cs : List Char) :
    Option (JsonNumber × List Char) :=
  match cs with
  | 'e' :: rest => readExponent? negative whole fraction rest
  | 'E' :: rest => readExponent? negative whole fraction rest
  | rest =>
    if fraction.isEmpty then (wholeNumber? negative whole).bind fun n => some (n, rest)
    else (scaledNumber? negative whole fraction 0).bind fun n => some (n, rest)

/-- Without its letter there is no power of ten. -/
theorem readPower?_plain (small : ∀ rest, cs ≠ 'e' :: rest) (capital : ∀ rest, cs ≠ 'E' :: rest) :
    readPower? negative whole fraction cs =
      (if fraction.isEmpty then wholeNumber? negative whole
        else scaledNumber? negative whole fraction 0).bind fun n => some (n, cs) := by
  unfold readPower?
  split
  · exact absurd rfl (small _)
  · exact absurd rfl (capital _)
  · split <;> rfl

/-- The digits behind a point, if there is one, and what follows them. -/
def splitFraction? (cs : List Char) : Option (List Char × List Char) :=
  match cs with
  | '.' :: rest =>
    match splitDigits rest with
    | ([], _) => none
    | (digits, rest) => some (digits, rest)
  | rest => some ([], rest)

/-- Behind a point there is at least one digit. -/
theorem splitFraction?_point (cs : List Char) : splitFraction? ('.' :: cs) =
    match splitDigits cs with
    | ([], _) => none
    | (digits, rest) => some (digits, rest) := rfl

/-- Without a point there are no digits behind it. -/
theorem splitFraction?_plain (plain : ∀ rest, cs ≠ '.' :: rest) :
    splitFraction? cs = some ([], cs) := by
  unfold splitFraction?
  split
  · exact absurd rfl (plain _)
  · rfl

/-- A number behind its sign, and what follows it. -/
def readMagnitude? (negative : Bool) (cs : List Char) : Option (JsonNumber × List Char) := do
  let (whole, rest) ← splitWhole? cs
  let (fraction, rest) ← splitFraction? rest
  readPower? negative whole fraction rest

/-- A minus sign, if there is one, and the text behind it. -/
def splitMinus (cs : List Char) : Bool × List Char :=
  match cs with
  | '-' :: rest => (true, rest)
  | cs => (false, cs)

/-- A number is its magnitude behind its sign. -/
theorem readNumber?_eq (cs : List Char) :
    readNumber? cs = readMagnitude? (splitMinus cs).1 (splitMinus cs).2 := by
  unfold readNumber?
  split
  next negative cs' e =>
  have signed : splitMinus cs = (negative, cs') := e
  rw [signed]
  unfold readMagnitude?
  cases splitWhole? cs' with
  | none => rfl
  | some parts =>
    obtain ⟨whole, rest⟩ := parts
    dsimp only [bind, Option.bind]
    split
    · rw [splitFraction?_point]
      generalize splitDigits _ = parts
      obtain ⟨_ | ⟨d, ds⟩, left⟩ := parts
      · rfl
      · rfl
    · next plain =>
      rw [splitFraction?_plain plain]
      rfl

/-! ## What stands behind a number -/

/-- Digits that end where something else starts are split off in front of it too. -/
theorem splitDigits_append (stop : ∀ c ∈ rest.head?, c.isDigit = false) (cs : List Char) :
    splitDigits (cs ++ rest) = ((splitDigits cs).1, (splitDigits cs).2 ++ rest) := by
  induction cs with
  | nil =>
    have none : AllDigits [] := by simp [AllDigits]
    exact Decimal.splitDigits_of_allDigits none stop
  | cons c cs ih =>
    unfold splitDigits at ih ⊢
    rw [List.cons_append, List.takeWhile_cons, List.dropWhile_cons, List.takeWhile_cons,
      List.dropWhile_cons]
    split
    · rw [(Prod.mk.inj ih).1, (Prod.mk.inj ih).2]
    · rfl

/-- The digits before the point are split off also in front of something else. -/
theorem splitWhole?_append (stop : ∀ c ∈ rest.head?, c.isDigit = false)
    (h : splitWhole? cs = some (digits, left)) :
    splitWhole? (cs ++ rest) = some (digits, left ++ rest) := by
  cases cs with
  | nil => cases h
  | cons c cs =>
    by_cases zero : c = '0'
    · subst zero
      cases h
      rfl
    · have other : ∀ cs, splitWhole? (c :: cs) =
          match splitDigits (c :: cs) with
          | ([], _) => none
          | (digits, rest) => some (digits, rest) := by
        intro cs
        unfold splitWhole?
        split
        · next e => exact absurd (List.cons.inj e).1 zero
        · rfl
      rw [other] at h
      rw [List.cons_append, other, ← List.cons_append, splitDigits_append stop]
      generalize splitDigits (c :: cs) = parts at h ⊢
      obtain ⟨_ | ⟨d, ds⟩, behind⟩ := parts
      · cases h
      · cases h
        rfl

/-- The digits behind a point are split off also in front of something else. -/
theorem splitFraction?_append (stop : ∀ c ∈ rest.head?, c.isDigit = false ∧ c ≠ '.')
    (h : splitFraction? cs = some (digits, left)) :
    splitFraction? (cs ++ rest) = some (digits, left ++ rest) := by
  cases cs with
  | nil =>
    cases h
    refine splitFraction?_plain fun tail e => ?_
    exact (stop '.' (by rw [List.nil_append] at e; rw [e]; rfl)).2 rfl
  | cons c cs =>
    by_cases point : c = '.'
    · subst point
      rw [splitFraction?_point] at h
      rw [List.cons_append, splitFraction?_point, splitDigits_append fun c m => (stop c m).1]
      generalize splitDigits cs = parts at h ⊢
      obtain ⟨_ | ⟨d, ds⟩, behind⟩ := parts
      · cases h
      · cases h
        rfl
    · have plain : ∀ {cs : List Char} rest, c :: cs ≠ '.' :: rest :=
        fun _ e => point (List.cons.inj e).1
      rw [splitFraction?_plain plain] at h
      cases h
      exact splitFraction?_plain plain

/-- The exponent is split off also in front of something else. -/
theorem splitExponent?_append {exponent : Int} (stop : ∀ c ∈ rest.head?, c.isDigit = false)
    (h : splitExponent? cs = some (exponent, left)) :
    splitExponent? (cs ++ rest) = some (exponent, left ++ rest) := by
  cases cs with
  | nil => cases h
  | cons c cs =>
    have sign : Decimal.splitSign (c :: cs ++ rest) =
        ((Decimal.splitSign (c :: cs)).1, (Decimal.splitSign (c :: cs)).2 ++ rest) := by
      rw [List.cons_append]
      unfold Decimal.splitSign
      split
      · next e => cases e; rfl
      · next e => cases e; rfl
      · next minus plus =>
        split
        · next e => exact absurd (congrArg (· ++ rest) e) (minus _)
        · next e => exact absurd (congrArg (· ++ rest) e) (plus _)
        · rfl
    unfold splitExponent? at h ⊢
    rw [sign]
    generalize Decimal.splitSign (c :: cs) = signed at h ⊢
    obtain ⟨negative, cs⟩ := signed
    dsimp only at h ⊢
    rw [splitDigits_append stop]
    generalize splitDigits cs = parts at h ⊢
    obtain ⟨_ | ⟨d, ds⟩, behind⟩ := parts
    · cases h
    · cases h
      rfl

/-- A power of ten that ends a text is read also in front of something else. -/
theorem readExponent?_append (stop : ∀ c ∈ rest.head?, c.isDigit = false)
    (h : readExponent? negative whole fraction cs = some (n, left)) :
    readExponent? negative whole fraction (cs ++ rest) = some (n, left ++ rest) := by
  obtain ⟨⟨exponent, behind⟩, split, h⟩ := Option.bind_eq_some_iff.1 h
  obtain ⟨n', scaled, e⟩ := Option.bind_eq_some_iff.1 h
  cases e
  unfold readExponent?
  rw [splitExponent?_append stop split, Option.bind_some]
  dsimp only at scaled ⊢
  rw [scaled, Option.bind_some]

/-- What ends a number, at the end of a text, does so also in front of something else. -/
theorem readPower?_append (stop : ∀ c ∈ rest.head?, c.isDigit = false ∧ c ≠ 'e' ∧ c ≠ 'E')
    (h : readPower? negative whole fraction cs = some (n, left)) :
    readPower? negative whole fraction (cs ++ rest) = some (n, left ++ rest) := by
  have digits : ∀ c ∈ rest.head?, c.isDigit = false := fun c m => (stop c m).1
  cases cs with
  | nil =>
    have small : ∀ tail, rest ≠ 'e' :: tail := fun _ e => (stop 'e' (by rw [e]; rfl)).2.1 rfl
    have capital : ∀ tail, rest ≠ 'E' :: tail := fun _ e => (stop 'E' (by rw [e]; rfl)).2.2 rfl
    rw [readPower?_plain (by simp) (by simp)] at h
    obtain ⟨n', read, e⟩ := Option.bind_eq_some_iff.1 h
    cases e
    rw [List.nil_append, readPower?_plain small capital, read, Option.bind_some]
  | cons c cs =>
    by_cases small : c = 'e'
    · subst small
      exact readExponent?_append digits h
    by_cases capital : c = 'E'
    · subst capital
      exact readExponent?_append digits h
    have plain : ∀ {cs d} tail, c ≠ d → c :: cs ≠ d :: tail := fun _ other e =>
      other (List.cons.inj e).1
    rw [readPower?_plain (fun _ => plain _ small) fun _ => plain _ capital] at h
    obtain ⟨n', read, e⟩ := Option.bind_eq_some_iff.1 h
    cases e
    rw [List.cons_append, readPower?_plain (fun _ => plain _ small) fun _ => plain _ capital, read,
      Option.bind_some]

/-- A magnitude that ends a text is read also in front of what can stand behind a value. -/
theorem readMagnitude?_append (ends : EndsValue rest)
    (h : readMagnitude? negative cs = some (n, left)) :
    readMagnitude? negative (cs ++ rest) = some (n, left ++ rest) := by
  have stop : ∀ c ∈ rest.head?, c.isDigit = false ∧ c ≠ '.' ∧ c ≠ 'e' ∧ c ≠ 'E' := by
    intro c m
    obtain rfl | rfl | rfl := ends c m <;> decide
  obtain ⟨⟨whole, behind⟩, digits, h⟩ := Option.bind_eq_some_iff.1 h
  obtain ⟨⟨fraction, behind'⟩, digits', h⟩ := Option.bind_eq_some_iff.1 h
  unfold readMagnitude?
  dsimp only [bind, Option.bind] at digits' h ⊢
  rw [splitWhole?_append (fun c m => (stop c m).1) digits]
  dsimp only
  rw [splitFraction?_append (fun c m => ⟨(stop c m).1, (stop c m).2.1⟩) digits']
  exact readPower?_append (fun c m => ⟨(stop c m).1, (stop c m).2.2⟩) h

/-! ## Whole numbers -/

/-- Only zero is written with a zero in front. -/
theorem eq_zero_of_toDigits {m : Nat} (h : Nat.toDigits 10 m = '0' :: digits) : m = 0 := by
  induction m using Nat.strongRecOn generalizing digits with
  | ind m ih =>
    rw [Nat.toDigits_eq_if (by decide)] at h
    split at h
    · next small =>
      have digit : m.digitChar = '0' := (List.cons.inj h).1
      interval_cases m <;> first | rfl | cases digit
    · next large =>
      -- the digits above the last one start with the same zero
      obtain ⟨c, cs, e⟩ := List.exists_cons_of_ne_nil (Nat.toDigits_ne_nil (b := 10) (n := m / 10))
      rw [e, List.cons_append] at h
      rw [(List.cons.inj h).1] at e
      have none := ih (m / 10) (by omega) e
      omega

/-- The digits of a number are read as its whole part. -/
theorem splitWhole?_toDigits (m : Nat) :
    splitWhole? (Nat.toDigits 10 m) = some (Nat.toDigits 10 m, []) := by
  have all := Decimal.allDigits_toDigits m
  have some' : Nat.toDigits 10 m ≠ [] := Nat.toDigits_ne_nil
  have split : splitDigits (Nat.toDigits 10 m) = (Nat.toDigits 10 m, []) := by
    have nothing : ∀ c ∈ ([] : List Char).head?, c.isDigit = false := by simp
    have e := Decimal.splitDigits_of_allDigits all nothing
    rwa [List.append_nil] at e
  unfold splitWhole?
  split
  · next e =>
    obtain rfl := eq_zero_of_toDigits e
    rw [Nat.toDigits_zero] at e ⊢
    cases e
    rfl
  · rw [split]
    split
    · next e => exact absurd (Prod.mk.inj e).1 some'
    · next e =>
      cases e
      rfl

end Json

namespace JsonNumber

open Json

/-- A number that is read from its text alone is read also in front of what can stand behind a
value. -/
theorem Kept.readsBack {n : JsonNumber} (h : n.Kept) : n.ReadsBack := by
  intro rest ends
  unfold Kept at h
  generalize writeNumber n = cs at h ⊢
  rw [readNumber?_eq] at h ⊢
  have sign : splitMinus (cs ++ rest) = ((splitMinus cs).1, (splitMinus cs).2 ++ rest) := by
    cases cs with
    | nil => cases h
    | cons c cs =>
      rw [List.cons_append]
      unfold splitMinus
      split
      · next e =>
        cases e
        rfl
      · next plain =>
        split
        · next e => exact absurd (congrArg (· ++ rest) e) (plain _)
        · rfl
  rw [sign]
  exact readMagnitude?_append ends h

/-- A whole number of 64 bits is read from its text. -/
theorem kept_whole (n : Int64) : (whole n.toInt).Kept := by
  have low := Int64.le_toInt n
  have high := Int64.toInt_lt n
  have bound : signedBound = 9223372036854775808 := rfl
  have count : wordCount = 18446744073709551616 := rfl
  unfold Kept
  rw [readNumber?_eq]
  generalize n.toInt = k at low high
  cases k with
  | ofNat m =>
    rw [Int.ofNat_eq_natCast] at low high
    have text : writeNumber (whole (.ofNat m)) = Nat.toDigits 10 m := by
      show (toString m).toList = _
      rw [Nat.toString_eq_ofList_toDigits, String.toList_ofList]
    have plain : splitMinus (Nat.toDigits 10 m) = (false, Nat.toDigits 10 m) := by
      have all := Decimal.allDigits_toDigits m
      unfold splitMinus
      split
      · next e => exact absurd (all '-' (e ▸ List.mem_cons_self)) (by decide)
      · rfl
    rw [text, plain]
    unfold readMagnitude?
    rw [splitWhole?_toDigits]
    show (wholeNumber? false (Nat.toDigits 10 m)).bind _ = _
    unfold wholeNumber?
    rw [Decimal.readDigits_toDigits, if_neg Bool.false_ne_true, if_pos (by omega)]
    rfl
  | negSucc m =>
    have text : writeNumber (whole (.negSucc m)) = '-' :: Nat.toDigits 10 (m + 1) := by
      show ("-" ++ toString (m + 1)).toList = _
      rw [Nat.toString_eq_ofList_toDigits, String.toList_append, String.toList_ofList,
        String.toList_ofList]
      rfl
    rw [text]
    show readMagnitude? true (Nat.toDigits 10 (m + 1)) = _
    unfold readMagnitude?
    rw [splitWhole?_toDigits]
    show (wholeNumber? true (Nat.toDigits 10 (m + 1))).bind _ = _
    unfold wholeNumber?
    rw [Decimal.readDigits_toDigits, if_pos rfl, if_pos (by
      rw [Bool.and_eq_true, decide_eq_true_eq, decide_eq_true_eq]
      omega)]
    rfl

end JsonNumber

end Pipewright
