import Mathlib
import Pipewright.Decimal.Layout
import Pipewright.Proofs.Decimal.Shortest

/-! # Written decimals
A decimal is written with digits on both sides of a point, and maybe with a power of ten behind
them. Whichever form its size calls for, the digits and the power that are read back have the value
of what was written. -/

namespace Pipewright.Decimal

/-! ## Runs of digits -/

/-- A run of digits. -/
def AllDigits (cs : List Char) : Prop := ∀ c ∈ cs, c.isDigit = true

/-- A digit is no other sign. -/
theorem ne_of_isDigit {c d : Char} (h : c.isDigit = true) (other : d.isDigit = false) : c ≠ d := by
  rintro rfl
  rw [h] at other
  cases other

/-- Two runs of digits are one. -/
theorem AllDigits.append {a b : List Char} (h : AllDigits a) (h' : AllDigits b) :
    AllDigits (a ++ b) := fun c m => (List.mem_append.1 m).elim (h c) (h' c)

/-- The digits of a number. -/
theorem allDigits_toDigits (n : Nat) : AllDigits (Nat.toDigits 10 n) :=
  fun _ m => Nat.isDigit_of_mem_toDigits (by decide) (by decide) m

/-- A run of zeros. -/
theorem allDigits_zeros (n : Nat) : AllDigits (zeros n) := by
  intro c m
  rw [List.eq_of_mem_replicate m]
  decide

/-- The digits of a number make it up. -/
theorem readDigits_toDigits (n : Nat) : readDigits 0 (Nat.toDigits 10 n) = n :=
  Nat.ofDigitChars_ten_toDigits

/-- Digits behind others go on with their number. -/
theorem readDigits_append (start : Nat) (a b : List Char) :
    readDigits start (a ++ b) = readDigits (readDigits start a) b := List.foldl_append ..

/-- A number in front of digits counts by the power of ten above them. -/
theorem readDigits_eq (start : Nat) (cs : List Char) :
    readDigits start cs = start * 10 ^ cs.length + readDigits 0 cs := by
  induction cs using List.reverseRecOn with
  | nil => rw [List.length_nil, Nat.pow_zero, Nat.mul_one]; rfl
  | append_singleton cs c ih =>
    rw [readDigits_append, readDigits_append, ih, List.length_append]
    show 10 * (start * 10 ^ cs.length + readDigits 0 cs) + (c.toNat - 48) =
      start * 10 ^ (cs.length + 1) + (10 * readDigits 0 cs + (c.toNat - 48))
    ring

/-- Zeros are no number. -/
theorem readDigits_zeros (n : Nat) : readDigits 0 (zeros n) = 0 := by
  induction n with
  | zero => rfl
  | succ n ih => exact ih

/-! ## Numerals -/

/-- What a decimal is written with: digits on both sides of a point, and maybe a power of ten. -/
structure Numeral where
  /-- The digits before the point. -/
  whole : List Char
  /-- The digits behind the point. -/
  fraction : List Char
  /-- The power of ten. -/
  power : Option Int

/-- A power of ten as it is written. -/
def powerText : Option Int → List Char
  | none => []
  | some p => 'e' :: (toString p).toList

/-- A numeral as it is written. -/
def Numeral.text (n : Numeral) : List Char := n.whole ++ '.' :: (n.fraction ++ powerText n.power)

/-- A numeral that has digits on both sides of its point. -/
structure Numeral.Sound (n : Numeral) : Prop where
  /-- The digits before the point. -/
  whole : AllDigits n.whole
  /-- There is a digit before the point. -/
  whole_ne : n.whole ≠ []
  /-- The digits behind the point. -/
  fraction : AllDigits n.fraction
  /-- There is a digit behind the point. -/
  fraction_ne : n.fraction ≠ []

/-- All digits of a numeral as one number. -/
def Numeral.coefficient (n : Numeral) : Nat := readDigits (readDigits 0 n.whole) n.fraction

/-- The power of ten of the last digit of a numeral. -/
def Numeral.exponent (n : Numeral) : Int := n.power.getD 0 - n.fraction.length

/-- A power of ten is written with at least one digit, maybe behind a sign. -/
theorem toString_power (p : Int) :
    ∃ digits, AllDigits digits ∧ digits ≠ [] ∧
      ((0 ≤ p ∧ (toString p).toList = digits ∧ (readDigits 0 digits : Int) = p) ∨
        p < 0 ∧ (toString p).toList = '-' :: digits ∧ -(readDigits 0 digits : Int) = p) := by
  cases p with
  | ofNat n =>
    refine ⟨Nat.toDigits 10 n, allDigits_toDigits n, Nat.toDigits_ne_nil, .inl ⟨by simp, ?_, ?_⟩⟩
    · show (toString n).toList = _
      rw [Nat.toString_eq_ofList_toDigits, String.toList_ofList]
    · rw [readDigits_toDigits]
      rfl
  | negSucc n =>
    refine ⟨Nat.toDigits 10 (n + 1), allDigits_toDigits _, Nat.toDigits_ne_nil,
      .inr ⟨Int.negSucc_lt_zero n, ?_, ?_⟩⟩
    · show ("-" ++ toString (n + 1)).toList = _
      rw [Nat.toString_eq_ofList_toDigits, String.toList_append, String.toList_ofList,
        String.toList_ofList]
      rfl
    · rw [readDigits_toDigits]
      rfl

/-- A run of digits is split off in front of what is no digit. -/
theorem splitDigits_of_allDigits {digits rest : List Char} (all : AllDigits digits)
    (stop : ∀ c ∈ rest.head?, c.isDigit = false) :
    splitDigits (digits ++ rest) = (digits, rest) := by
  have none : rest.takeWhile Char.isDigit = [] ∧ rest.dropWhile Char.isDigit = rest := by
    cases rest with
    | nil => exact ⟨rfl, rfl⟩
    | cons c rest => simp [stop c rfl]
  unfold splitDigits
  rw [List.takeWhile_append_of_pos all, List.dropWhile_append_of_pos all, none.1, none.2,
    List.append_nil]

/-- A power of ten that is written is read back. -/
theorem readExponent?_toString (p : Int) : readExponent? (toString p).toList = some p := by
  obtain ⟨digits, all, some', ⟨-, text, value⟩ | ⟨-, text, value⟩⟩ := toString_power p
  · cases digits with
    | nil => exact absurd rfl some'
    | cons c cs =>
      have minus : c ≠ '-' := ne_of_isDigit (all c List.mem_cons_self) (by decide)
      have plus : c ≠ '+' := ne_of_isDigit (all c List.mem_cons_self) (by decide)
      have sign : splitSign (c :: cs) = (false, c :: cs) := by
        unfold splitSign
        split
        · next e => exact absurd (List.cons.inj e).1 minus
        · next e => exact absurd (List.cons.inj e).1 plus
        · rfl
      unfold readExponent?
      rw [text, sign]
      simp only
      rw [if_neg (by simp [List.all_eq_true.2 all]), if_neg Bool.false_ne_true, value]
  · have none : digits.isEmpty = false := List.isEmpty_eq_false_iff.2 some'
    unfold readExponent?
    rw [text]
    show (if digits.isEmpty || !digits.all Char.isDigit then _ else _) = _
    rw [none, List.all_eq_true.2 all]
    show some (-(readDigits 0 digits : Int)) = _
    rw [value]

/-- A numeral is read with its digits and its power. -/
theorem Numeral.Sound.readUnsigned? {n : Numeral} (h : n.Sound) (negative : Bool) :
    Decimal.readUnsigned? negative n.text =
      some (nearestFloat negative n.coefficient n.exponent) := by
  have point : splitDigits n.text = (n.whole, '.' :: (n.fraction ++ powerText n.power)) :=
    splitDigits_of_allDigits h.whole (by
      intro c m
      cases m
      decide)
  have behind : splitDigits (n.fraction ++ powerText n.power) =
      (n.fraction, powerText n.power) := by
    refine splitDigits_of_allDigits h.fraction ?_
    cases n.power with
    | none => exact fun c m => by cases m
    | some p =>
      intro c m
      cases m
      decide
  have some' : (n.whole.isEmpty && n.fraction.isEmpty) = false := by
    rw [List.isEmpty_eq_false_iff.2 h.whole_ne, Bool.false_and]
  unfold Decimal.readUnsigned?
  rw [point]
  simp only [behind]
  rw [some']
  cases e : n.power with
  | none =>
    have exponent : n.exponent = 0 - n.fraction.length := by
      rw [exponent, e]
      rfl
    rw [exponent]
    rfl
  | some p =>
    have exponent : n.exponent = p - n.fraction.length := by
      rw [exponent, e]
      rfl
    rw [exponent]
    show (readExponent? (toString p).toList).map _ = _
    rw [readExponent?_toString]
    rfl

/-! ## Forms -/

/-- A form without a point gets one before its power of ten. -/
def withPoint (cs : List Char) : List Char :=
  let (digits, power) := cs.span (· ≠ 'e')
  if power.isEmpty || digits.contains '.' then digits ++ power else digits ++ ['.', '0'] ++ power

/-- A text without the sign of a power of ten stays as it is. -/
theorem withPoint_plain {cs : List Char} (plain : ∀ c ∈ cs, c ≠ 'e') : withPoint cs = cs := by
  have all : ∀ c ∈ cs, decide (c ≠ 'e') = true := fun c m => decide_eq_true (plain c m)
  unfold withPoint
  rw [List.span_eq_takeWhile_dropWhile]
  simp only
  rw [List.takeWhile_eq_self_iff.2 all, List.dropWhile_eq_nil_iff.2 all]
  simp

/-- In front of a power of ten a text without a point gets one. -/
theorem withPoint_power {cs rest : List Char} (plain : ∀ c ∈ cs, c ≠ 'e') :
    withPoint (cs ++ 'e' :: rest) =
      (if cs.contains '.' then cs else cs ++ ['.', '0']) ++ 'e' :: rest := by
  have all : ∀ c ∈ cs, decide (c ≠ 'e') = true := fun c m => decide_eq_true (plain c m)
  unfold withPoint
  rw [List.span_eq_takeWhile_dropWhile]
  simp only
  rw [List.takeWhile_append_of_pos all, List.dropWhile_append_of_pos all]
  split
  · next point =>
    simp at point
    simp [point]
  · next point =>
    simp at point
    simp [point]

/-- A minus sign in front of a form is kept. -/
theorem withPoint_minus (cs : List Char) : withPoint ('-' :: cs) = '-' :: withPoint cs := by
  unfold withPoint
  rw [List.span_eq_takeWhile_dropWhile, List.span_eq_takeWhile_dropWhile]
  simp only
  have other : decide ('-' ≠ 'e') = true := by decide
  rw [List.takeWhile_cons, if_pos other, List.dropWhile_cons, if_pos other]
  have sign : ('-' :: List.takeWhile (fun c => decide (c ≠ 'e')) cs).contains '.' =
      (List.takeWhile (fun c => decide (c ≠ 'e')) cs).contains '.' := by
    simp
  rw [sign]
  split <;> rfl

/-- Digits are no letters. -/
theorem AllDigits.ne_e {cs : List Char} (h : AllDigits cs) : ∀ c ∈ cs, c ≠ 'e' :=
  fun c m => ne_of_isDigit (h c m) (by decide)

/-- Digits are no points. -/
theorem AllDigits.contains {cs : List Char} (h : AllDigits cs) : cs.contains '.' = false := by
  rw [← Bool.not_eq_true, List.contains_iff_mem]
  exact fun m => ne_of_isDigit (h '.' m) (by decide) rfl

/-- Digits times a power of ten. -/
theorem valueOf_mul (m n : Nat) (e : Int) : valueOf (m * 10 ^ n) (e - n) = valueOf m e := by
  unfold valueOf
  push_cast
  rw [zpow_sub₀ (by norm_num), zpow_natCast]
  field_simp

/-- Zeros behind digits. -/
theorem readDigits_append_zeros (start k : Nat) :
    readDigits start (zeros k) = start * 10 ^ k := by
  rw [readDigits_eq, readDigits_zeros, zeros, List.length_replicate, Nat.add_zero]

/-- The positional form of a decimal is a numeral of its value. -/
theorem exists_positional (d : Decimal) :
    ∃ n : Numeral, n.Sound ∧ d.positional = n.text ∧ n.power = none ∧
      valueOf n.coefficient n.exponent = valueOf d.coefficient d.exponent := by
  have digits := allDigits_toDigits d.coefficient
  have value := readDigits_toDigits d.coefficient
  have some' : Nat.toDigits 10 d.coefficient ≠ [] := Nat.toDigits_ne_nil
  unfold positional
  generalize Nat.toDigits 10 d.coefficient = ds at digits value some'
  simp only
  split
  · next nonneg =>
    -- a whole number: zeros behind the digits, and one behind the point
    have sound : Numeral.Sound ⟨ds ++ zeros d.exponent.toNat, ['0'], none⟩ :=
      ⟨digits.append (allDigits_zeros _), List.append_ne_nil_of_left_ne_nil some' _,
        allDigits_zeros 1, List.cons_ne_nil _ _⟩
    refine ⟨_, sound, rfl, rfl, ?_⟩
    have coefficient : Numeral.coefficient ⟨ds ++ zeros d.exponent.toNat, ['0'], none⟩ =
        d.coefficient * 10 ^ (d.exponent.toNat + 1) := by
      show readDigits (readDigits 0 (ds ++ zeros d.exponent.toNat)) (zeros 1) = _
      rw [readDigits_append, value, readDigits_append_zeros, readDigits_append_zeros, Nat.pow_add,
        Nat.mul_assoc]
    have exponent : Numeral.exponent ⟨ds ++ zeros d.exponent.toNat, ['0'], none⟩ =
        d.exponent - (d.exponent.toNat + 1 : Nat) := by
      show (0 : Int) - 1 = _
      omega
    rw [coefficient, exponent, valueOf_mul]
  · next negative =>
    split
    · next inside =>
      -- the point stands between two digits
      have sound : Numeral.Sound ⟨ds.take (ds.length - (-d.exponent).toNat),
          ds.drop (ds.length - (-d.exponent).toNat), none⟩ := by
        refine ⟨fun c m => digits c (List.mem_of_mem_take m), ?_,
          fun c m => digits c (List.mem_of_mem_drop m), ?_⟩
        · rw [← List.length_pos_iff, List.length_take]
          omega
        · rw [← List.length_pos_iff, List.length_drop]
          omega
      refine ⟨_, sound, by simp [Numeral.text, powerText], rfl, ?_⟩
      have coefficient : Numeral.coefficient ⟨ds.take (ds.length - (-d.exponent).toNat),
          ds.drop (ds.length - (-d.exponent).toNat), none⟩ = d.coefficient := by
        unfold Numeral.coefficient
        rw [← readDigits_append, List.take_append_drop, value]
      have exponent : Numeral.exponent ⟨ds.take (ds.length - (-d.exponent).toNat),
          ds.drop (ds.length - (-d.exponent).toNat), none⟩ = d.exponent := by
        show (0 : Int) - ((ds.drop (ds.length - (-d.exponent).toNat)).length : Nat) = _
        rw [List.length_drop]
        omega
      rw [coefficient, exponent]
    · next outside =>
      -- the point stands in front of all digits, with zeros between
      have sound : Numeral.Sound
          ⟨['0'], zeros ((-d.exponent).toNat - ds.length) ++ ds, none⟩ :=
        ⟨allDigits_zeros 1, List.cons_ne_nil _ _, (allDigits_zeros _).append digits,
          List.append_ne_nil_of_right_ne_nil _ some'⟩
      refine ⟨_, sound, by simp [Numeral.text, powerText], rfl, ?_⟩
      have coefficient : Numeral.coefficient
          ⟨['0'], zeros ((-d.exponent).toNat - ds.length) ++ ds, none⟩ = d.coefficient := by
        show readDigits 0 (zeros _ ++ ds) = _
        rw [readDigits_append, readDigits_zeros, value]
      have exponent : Numeral.exponent
          ⟨['0'], zeros ((-d.exponent).toNat - ds.length) ++ ds, none⟩ = d.exponent := by
        show (0 : Int) - ((zeros _ ++ ds).length : Nat) = _
        rw [List.length_append, zeros, List.length_replicate]
        omega
      rw [coefficient, exponent]

/-- The scientific form of a decimal, with a point, is a numeral of its value. -/
theorem exists_scientific (d : Decimal) :
    ∃ n : Numeral, n.Sound ∧ withPoint (d.scientific false) = n.text ∧
      valueOf n.coefficient n.exponent = valueOf d.coefficient d.exponent := by
  have digits := allDigits_toDigits d.coefficient
  have value := readDigits_toDigits d.coefficient
  have some' : Nat.toDigits 10 d.coefficient ≠ [] := Nat.toDigits_ne_nil
  have power : d.leadingPower = d.exponent + (Nat.toDigits 10 d.coefficient).length - 1 := rfl
  have text : ("" ++ toString d.leadingPower).toList = (toString d.leadingPower).toList := by
    rw [String.empty_append]
  unfold scientific
  simp only [Bool.false_and, Bool.false_eq_true, if_false]
  rw [text]
  generalize d.leadingPower = p at power
  generalize Nat.toDigits 10 d.coefficient = ds at digits value some' power
  -- a single digit is written without a point, which the text then gets
  match ds, digits, value, some', power with
  | [], _, _, some', _ => exact absurd rfl some'
  | [digit], digits, value, _, power =>
    have sound : Numeral.Sound ⟨[digit], ['0'], some p⟩ :=
      ⟨digits, List.cons_ne_nil _ _, allDigits_zeros 1, List.cons_ne_nil _ _⟩
    refine ⟨_, sound, ?_, ?_⟩
    · show withPoint ([digit] ++ 'e' :: (toString p).toList) = _
      rw [withPoint_power digits.ne_e, digits.contains, if_neg Bool.false_ne_true]
      rfl
    · have coefficient : Numeral.coefficient ⟨[digit], ['0'], some p⟩ =
          d.coefficient * 10 ^ 1 := by
        show readDigits (readDigits 0 [digit]) (zeros 1) = _
        rw [value, readDigits_append_zeros]
      have exponent : Numeral.exponent ⟨[digit], ['0'], some p⟩ = d.exponent - (1 : Nat) := by
        show p - 1 = _
        rw [power]
        simp
      rw [coefficient, exponent, valueOf_mul]
  | digit :: other :: others, digits, value, _, power =>
    have one : AllDigits [digit] := fun c m => digits c (by
      rw [List.mem_singleton] at m
      rw [m]
      exact List.mem_cons_self)
    have rest : AllDigits (other :: others) := fun c m => digits c (List.mem_cons_of_mem _ m)
    have sound : Numeral.Sound ⟨[digit], other :: others, some p⟩ :=
      ⟨one, List.cons_ne_nil _ _, rest, List.cons_ne_nil _ _⟩
    refine ⟨_, sound, ?_, ?_⟩
    · have plain : ∀ c ∈ digit :: '.' :: other :: others, c ≠ 'e' := by
        intro c m
        rcases List.mem_cons.1 m with rfl | m
        · exact one.ne_e c List.mem_cons_self
        · rcases List.mem_cons.1 m with rfl | m
          · decide
          · exact rest.ne_e c m
      show withPoint ((digit :: '.' :: other :: others) ++ 'e' :: (toString p).toList) = _
      rw [withPoint_power plain, if_pos (by simp)]
      rfl
    · have coefficient : Numeral.coefficient ⟨[digit], other :: others, some p⟩ =
          d.coefficient := by
        unfold Numeral.coefficient
        rw [← readDigits_append]
        exact value
      have exponent : Numeral.exponent ⟨[digit], other :: others, some p⟩ = d.exponent := by
        show p - ((other :: others).length : Nat) = _
        rw [power, List.length_cons, List.length_cons]
        omega
      rw [coefficient, exponent]

/-- A numeral has a point. -/
theorem Numeral.Sound.withPoint {n : Numeral} (h : n.Sound) (none : n.power = .none) :
    Decimal.withPoint n.text = n.text := by
  refine withPoint_plain fun c m => ?_
  unfold Numeral.text at m
  rw [none, powerText, List.append_nil] at m
  rcases List.mem_append.1 m with m | m
  · exact h.whole.ne_e c m
  · rcases List.mem_cons.1 m with rfl | m
    · decide
    · exact h.fraction.ne_e c m

/-- What is shown of a decimal, with a point, is a numeral of its value. -/
theorem exists_numeral (d : Decimal) :
    ∃ n : Numeral, n.Sound ∧ withPoint (Layout.shown.write d) = n.text ∧
      valueOf n.coefficient n.exponent = valueOf d.coefficient d.exponent := by
  unfold Layout.write
  split
  · next zero =>
    have sound : Numeral.Sound ⟨['0'], ['0'], none⟩ :=
      ⟨allDigits_zeros 1, List.cons_ne_nil _ _, allDigits_zeros 1, List.cons_ne_nil _ _⟩
    refine ⟨_, sound, sound.withPoint rfl, ?_⟩
    have coefficient : Numeral.coefficient ⟨['0'], ['0'], none⟩ = 0 := by decide
    rw [coefficient, zero, valueOf, valueOf, Nat.cast_zero, zero_mul, zero_mul]
  · split
    · obtain ⟨n, sound, text, plain, value⟩ := exists_positional d
      rw [text]
      exact ⟨n, sound, sound.withPoint plain, value⟩
    · exact exists_scientific d

end Pipewright.Decimal
