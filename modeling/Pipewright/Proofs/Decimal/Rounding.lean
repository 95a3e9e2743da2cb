import Mathlib
import Pipewright.Decimal.Shortest

/-! # Rounding to the nearest number
A result of floating-point arithmetic is computed with two bits more than it keeps: they tell how
what is dropped compares with a half. So every real in the interval around a number, to whose ends
no other number is nearer, is rounded to that number. -/

namespace Pipewright.Decimal

open Float.Model (Format UnpackedFloat totalExponent)
open Float.Model.UnpackedFloat (Sign Accuracy ExtendedMantissa accuracyOfFraction roundWithAccuracy
  shiftToTargetExponent shiftToExponent)

/-! ## Bits that are kept -/

/-- Some bits are the whole part of a number, and two more bits tell how the rest of it compares
with nothing and with a half. -/
structure Keeps (bits : ExtendedMantissa) (q : ℚ) : Prop where
  /-- The number is not below its whole part. -/
  floor_le : (bits.mantissa : ℚ) ≤ q
  /-- The number is less than one above its whole part. -/
  lt_floor : q < bits.mantissa + 1
  /-- One bit tells whether the rest is a half or more. -/
  half : bits.roundBit = true ↔ (bits.mantissa : ℚ) + 1 / 2 ≤ q
  /-- The other one tells whether something is left besides. -/
  rest : bits.stickyBit = true ↔ q ≠ bits.mantissa ∧ q ≠ bits.mantissa + 1 / 2

/-- A whole number is as near to a number as any, and of two such the even one. -/
structure Nearest (n : Nat) (q : ℚ) : Prop where
  /-- The number is at most a half below. -/
  below : (n : ℚ) - 1 / 2 ≤ q
  /-- The number is at most a half above. -/
  above : q ≤ n + 1 / 2
  /-- Half a step away the whole number is even. -/
  even : q = n - 1 / 2 ∨ q = n + 1 / 2 → n % 2 = 0

variable {bits : ExtendedMantissa} {q : ℚ} {n m : Nat} {e : Int}

/-- There is one nearest whole number. -/
theorem Nearest.unique (h : Nearest n q) (h' : Nearest m q) : n = m := by
  have ⟨below, above, even⟩ := h
  have ⟨below', above', even'⟩ := h'
  rcases Nat.lt_trichotomy n m with lt | rfl | lt
  · have le : (n : ℚ) + 1 ≤ m := by exact_mod_cast lt
    -- both are a half away, so both are even and cannot be neighbours
    have tie := even (.inr (by linarith))
    have tie' := even' (.inl (by linarith))
    have near : (m : ℚ) ≤ n + 1 := by linarith
    have : m ≤ n + 1 := by exact_mod_cast near
    omega
  · rfl
  · have le : (m : ℚ) + 1 ≤ n := by exact_mod_cast lt
    have tie := even (.inl (by linarith))
    have tie' := even' (.inr (by linarith))
    have near : (n : ℚ) ≤ m + 1 := by linarith
    have : n ≤ m + 1 := by exact_mod_cast near
    omega

/-- The bits that are kept with an accuracy are the whole part. -/
theorem mantissa_ofMantissaAndAccuracy (m : Nat) (accuracy : Accuracy) :
    (ExtendedMantissa.ofMantissaAndAccuracy m accuracy).mantissa = m := by
  cases accuracy with
  | exact => rfl
  | inexact order => cases order <;> rfl

namespace Keeps

/-- Something is left over exactly where a number is not whole. -/
theorem inexact_iff (h : Keeps bits q) :
    (bits.roundBit || bits.stickyBit) = true ↔ q ≠ bits.mantissa := by
  rw [Bool.or_eq_true, h.half, h.rest]
  constructor
  · rintro (half | ⟨rest, -⟩)
    · intro whole
      linarith
    · exact rest
  · intro rest
    by_cases half : q = bits.mantissa + 1 / 2
    · exact .inl (le_of_eq half.symm)
    · exact .inr ⟨rest, half⟩

/-- Half of a number keeps all but the last bit. -/
theorem shiftRightOne (h : Keeps bits q) : Keeps bits.shiftRightOne (q / 2) := by
  have inexact := h.inexact_iff
  obtain ⟨floor_le, lt_floor, -, -⟩ := h
  obtain ⟨k, b, small, e⟩ : ∃ k b, b < 2 ∧ bits.mantissa = 2 * k + b :=
    ⟨bits.mantissa / 2, bits.mantissa % 2, Nat.mod_lt _ (by decide), (Nat.div_add_mod _ 2).symm⟩
  have whole : bits.shiftRightOne.mantissa = k := by
    show bits.mantissa / 2 = k
    omega
  have last : bits.shiftRightOne.roundBit = decide (b = 1) := by
    show (bits.mantissa % 2 != 0) = decide (b = 1)
    have : bits.mantissa % 2 = b := by omega
    rw [this]
    rcases Nat.lt_or_ge b 1 with zero | one
    · obtain rfl : b = 0 := by omega
      rfl
    · obtain rfl : b = 1 := by omega
      rfl
  have sticky : bits.shiftRightOne.stickyBit = (bits.roundBit || bits.stickyBit) := rfl
  rw [e] at floor_le lt_floor inexact
  push_cast at floor_le lt_floor inexact
  -- the dropped bit decides which half of the unit the number is in
  rcases Nat.lt_or_ge b 1 with zero | one
  · obtain rfl : b = 0 := by omega
    simp only [Nat.cast_zero, add_zero] at floor_le lt_floor inexact
    refine ⟨?_, ?_, ?_, ?_⟩
    · rw [whole]
      linarith
    · rw [whole]
      linarith
    · rw [last, whole]
      simp only [Nat.zero_ne_one, decide_false, Bool.false_eq_true, false_iff, not_le]
      linarith
    · rw [sticky, inexact, whole]
      constructor
      · intro rest
        exact ⟨fun same => rest (by linarith), fun same => by linarith⟩
      · rintro ⟨rest, -⟩ same
        exact rest (by linarith)
  · obtain rfl : b = 1 := by omega
    simp only [Nat.cast_one] at floor_le lt_floor inexact
    refine ⟨?_, ?_, ?_, ?_⟩
    · rw [whole]
      linarith
    · rw [whole]
      linarith
    · rw [last, whole]
      simp only [decide_true, true_iff]
      linarith
    · rw [sticky, inexact, whole]
      constructor
      · intro rest
        exact ⟨fun same => by linarith, fun same => rest (by linarith)⟩
      · rintro ⟨-, rest⟩ same
        exact rest (by linarith)

/-- A power of two drops as many bits. -/
theorem shiftRight (h : Keeps bits q) (k : Nat) : Keeps (bits >>> k) (q / 2 ^ k) := by
  induction k with
  | zero =>
    rw [pow_zero, div_one]
    exact h
  | succ k ih =>
    rw [pow_succ, ← div_div]
    exact ih.shiftRightOne

/-- Rounding takes the nearest whole number. -/
theorem nearest (h : Keeps bits q) : Nearest bits.roundedMantissa q := by
  obtain ⟨floor_le, lt_floor, half, rest⟩ := h
  obtain ⟨n, round, sticky⟩ := bits
  simp only at floor_le lt_floor half rest
  cases round with
  | false =>
    have less : q < n + 1 / 2 := by
      rw [← not_le, ← half]
      exact Bool.false_ne_true
    -- less than a half is dropped
    have down : ExtendedMantissa.roundedMantissa ⟨n, false, sticky⟩ = n := by
      cases sticky <;> rfl
    rw [down]
    refine ⟨by linarith, by linarith, ?_⟩
    rintro (low | high) <;> linarith
  | true =>
    have more := half.1 rfl
    cases sticky with
    | false =>
      have tie : q = n + 1 / 2 := by
        by_contra differ
        have : q ≠ n := fun same => by linarith
        exact Bool.false_ne_true (rest.2 ⟨this, differ⟩)
      have up : ExtendedMantissa.roundedMantissa ⟨n, true, false⟩ = n + n % 2 := rfl
      rw [up]
      rcases Nat.mod_two_eq_zero_or_one n with zero | one
      · rw [zero, add_zero]
        refine ⟨by linarith, by linarith, fun _ => zero⟩
      · rw [one]
        refine ⟨by push_cast; linarith, by push_cast; linarith, fun _ => by omega⟩
    | true =>
      have differ := (rest.1 rfl).2
      have up : ExtendedMantissa.roundedMantissa ⟨n, true, true⟩ = n + 1 := rfl
      rw [up]
      refine ⟨by push_cast; linarith, by push_cast; linarith, ?_⟩
      push_cast
      rintro (low | high)
      · exact absurd (by linarith) differ
      · linarith

/-- All of a whole number is kept. -/
theorem exact (n : Nat) : Keeps (.ofMantissaAndAccuracy n .exact) n := by
  refine ⟨le_refl _, ?_, ?_, ?_⟩
  · show (n : ℚ) < n + 1
    linarith
  · show false = true ↔ (n : ℚ) + 1 / 2 ≤ n
    simp only [Bool.false_eq_true, false_iff, not_le]
    linarith
  · show false = true ↔ (n : ℚ) ≠ n ∧ _
    simp

/-- A proper fraction beside a whole number is kept by how it compares with nothing and with a half,
which its numerator says. -/
theorem fraction {whole left d : Nat} (small : left < d) {bits : ExtendedMantissa}
    (mantissa : bits.mantissa = whole) (rounds : bits.roundBit = true ↔ d ≤ 2 * left)
    (sticks : bits.stickyBit = true ↔ left ≠ 0 ∧ 2 * left ≠ d) :
    Keeps bits (whole + (left : ℚ) / d) := by
  have pos : (0 : ℚ) < d := by exact_mod_cast Nat.zero_lt_of_lt small
  have nonneg : (0 : ℚ) ≤ left / d := by positivity
  have less : (left : ℚ) / d < 1 := by
    rw [div_lt_one pos]
    exact_mod_cast small
  have none : (left : ℚ) / d = 0 ↔ left = 0 := by
    rw [div_eq_zero_iff, or_iff_left pos.ne', Nat.cast_eq_zero]
  have half : (1 : ℚ) / 2 ≤ left / d ↔ d ≤ 2 * left := by
    rw [div_le_div_iff₀ two_pos pos, one_mul, mul_comm (left : ℚ)]
    exact_mod_cast Iff.rfl
  have tie : (left : ℚ) / d = 1 / 2 ↔ 2 * left = d := by
    rw [div_eq_div_iff pos.ne' two_ne_zero, one_mul, mul_comm (left : ℚ)]
    exact_mod_cast Iff.rfl
  obtain ⟨_, round, sticky⟩ := bits
  subst mantissa
  refine ⟨by simpa using nonneg, by simpa using less, ?_, ?_⟩
  · rw [rounds, ← half]
    exact (add_le_add_iff_left _).symm
  · rw [sticks, ne_eq, ne_eq, ← none, ← tie]
    simp only [add_eq_left, add_right_inj, ne_eq]

/-- The bits of a fraction say how its numerator compares with nothing and with half of its
denominator. -/
theorem bits_fraction (n left : Nat) {d : Nat} (pos : 0 < d) {bits : ExtendedMantissa}
    (kept : bits = .ofMantissaAndAccuracy n (accuracyOfFraction left d)) :
    (bits.roundBit = true ↔ d ≤ 2 * left) ∧
      (bits.stickyBit = true ↔ left ≠ 0 ∧ 2 * left ≠ d) := by
  subst kept
  unfold accuracyOfFraction
  by_cases zero : left = 0
  · rw [if_pos zero]
    simp only [ExtendedMantissa.ofMantissaAndAccuracy, Bool.false_eq_true, false_iff]
    omega
  · rw [if_neg zero]
    cases order : compare (2 * left) d with
    | lt =>
      have := Nat.compare_eq_lt.1 order
      simp only [ExtendedMantissa.ofMantissaAndAccuracy, Bool.false_eq_true, false_iff, true_iff]
      omega
    | eq =>
      have := Nat.compare_eq_eq.1 order
      simp only [ExtendedMantissa.ofMantissaAndAccuracy, Bool.false_eq_true, false_iff, true_iff]
      omega
    | gt =>
      have := Nat.compare_eq_gt.1 order
      simp only [ExtendedMantissa.ofMantissaAndAccuracy, true_iff]
      omega

/-- A quotient is kept with how its remainder compares with half of the divisor. -/
theorem quotient (n : Nat) {d : Nat} (pos : 0 < d) :
    Keeps (.ofMantissaAndAccuracy (n / d) (accuracyOfFraction (n % d) d)) ((n : ℚ) / d) := by
  have some : (d : ℚ) ≠ 0 := by exact_mod_cast pos.ne'
  have split : (n : ℚ) = d * (n / d : Nat) + (n % d : Nat) := by
    exact_mod_cast (Nat.div_add_mod n d).symm
  have value : (n : ℚ) / d = (n / d : Nat) + ((n % d : Nat) : ℚ) / d := by
    rw [div_eq_iff some, add_mul, div_mul_cancel₀ _ some, mul_comm, ← split]
  rw [value]
  obtain ⟨rounds, sticks⟩ := bits_fraction (n / d) (n % d) pos rfl
  exact fraction (Nat.mod_lt n pos) (mantissa_ofMantissaAndAccuracy _ _) rounds sticks

end Keeps

/-! ## The interval of a magnitude -/

/-- A magnitude is one of the numbers of the format: it has at most as many bits as are kept, and
fewer only at the least exponent. -/
structure Magnitude.Canonical (x : Magnitude) : Prop where
  /-- At most fifty-three bits are kept. -/
  few : x.mantissa < 2 ^ 53
  /-- Exponents start here. -/
  least : -1074 ≤ x.exponent
  /-- No bit is given away above the least exponent. -/
  full : 2 ^ 52 ≤ x.mantissa ∨ x.exponent = -1074
  /-- Below a power of two numbers are closer together. -/
  narrow : x.narrowBelow = true ↔ x.mantissa = 2 ^ 52 ∧ -1074 < x.exponent

/-- How far the interval of a magnitude reaches down, in units of its last bit. -/
def Magnitude.margin (x : Magnitude) : ℚ := if x.narrowBelow then 1 / 4 else 1 / 2

/-- A number is so near to a magnitude that none of the others is nearer. -/
structure Magnitude.Reaches (x : Magnitude) (v : ℚ) : Prop where
  /-- It is not below the interval. -/
  low : x.mantissa - x.margin ≤ v / 2 ^ x.exponent
  /-- It is not above the interval. -/
  high : v / 2 ^ x.exponent ≤ x.mantissa + 1 / 2
  /-- It is no end of the interval, unless the magnitude is even. -/
  even : v / 2 ^ x.exponent = x.mantissa - x.margin ∨ v / 2 ^ x.exponent = x.mantissa + 1 / 2 →
    x.mantissa % 2 = 0

variable {x : Magnitude} {v : ℚ} {accuracy : Accuracy}

/-- The margin is a half or a quarter. -/
theorem Magnitude.margin_le (x : Magnitude) : x.margin ≤ 1 / 2 := by
  unfold margin
  split <;> norm_num

/-- What is kept tells the power of two above a number. -/
theorem Keeps.lt_binade (h : Keeps (.ofMantissaAndAccuracy m accuracy) (v / 2 ^ e)) :
    v < 2 ^ totalExponent m e := by
  have power : (0 : ℚ) < 2 ^ e := by positivity
  have less := h.lt_floor
  rw [mantissa_ofMantissaAndAccuracy, div_lt_iff₀ power] at less
  have bound : (m : ℚ) + 1 ≤ 2 ^ (m.log2 + 1) := by exact_mod_cast Nat.lt_log2_self
  have split : (2 : ℚ) ^ totalExponent m e = 2 ^ (m.log2 + 1) * 2 ^ e := by
    rw [totalExponent, zpow_add₀ two_ne_zero]
    norm_cast
  rw [split]
  exact less.trans_le (mul_le_mul_of_nonneg_right bound power.le)

/-- What is kept tells the power of two below a number. -/
theorem Keeps.binade_le (h : Keeps (.ofMantissaAndAccuracy m accuracy) (v / 2 ^ e))
    (some : m ≠ 0) : 2 ^ (totalExponent m e - 1) ≤ v := by
  have power : (0 : ℚ) < 2 ^ e := by positivity
  have le := h.floor_le
  rw [mantissa_ofMantissaAndAccuracy, le_div_iff₀ power] at le
  have bound : (2 : ℚ) ^ m.log2 ≤ m := by exact_mod_cast Nat.log2_self_le some
  have split : (2 : ℚ) ^ (totalExponent m e - 1) = 2 ^ m.log2 * 2 ^ e := by
    rw [totalExponent, show (m.log2 : Int) + 1 + e - 1 = m.log2 + e by omega,
      zpow_add₀ two_ne_zero, zpow_natCast]
  rw [split]
  exact (mul_le_mul_of_nonneg_right bound power.le).trans le

/-- The exponent to which a result is rounded, from the power of two above it. -/
theorem targetExponent_eq (e : Int) :
    Format.binary64.targetExponent e = max (e - 53) (-1074) := rfl

/-- A number in the interval of a magnitude is rounded at the magnitude's exponent, or just below a
power of two at the next lower one. -/
theorem Magnitude.Reaches.exponent (h : x.Reaches v) (canonical : x.Canonical) {t : Int}
    (below : v < 2 ^ (t + 53)) (above : -1074 < t → 2 ^ (t + 52) ≤ v) (least : -1074 ≤ t) :
    t = x.exponent ∨ t = x.exponent - 1 ∧ x.mantissa = 2 ^ 52 ∧ -1074 < x.exponent := by
  have power : (0 : ℚ) < 2 ^ x.exponent := by positivity
  have scaled : ∀ k : Int, (2 : ℚ) ^ (k + x.exponent) = 2 ^ k * 2 ^ x.exponent :=
    fun k => zpow_add₀ two_ne_zero _ _
  have margin := x.margin_le
  rcases lt_trichotomy t x.exponent with lt | same | gt
  · right
    -- the magnitude has all of its bits, and the number is below a power of two
    have full : 2 ^ 52 ≤ x.mantissa := canonical.full.resolve_right (by omega)
    have full' : (2 : ℚ) ^ 52 ≤ x.mantissa := by exact_mod_cast full
    have less : v / 2 ^ x.exponent < 2 ^ (t + 53 - x.exponent) := by
      rw [div_lt_iff₀ power, ← scaled, show t + 53 - x.exponent + x.exponent = t + 53 by omega]
      exact below
    have low := h.low
    have near : t = x.exponent - 1 := by
      by_contra far
      have small : (2 : ℚ) ^ (t + 53 - x.exponent) ≤ 2 ^ (51 : Int) :=
        zpow_le_zpow_right₀ one_le_two (by omega)
      rw [show (2 : ℚ) ^ (51 : Int) = 2 ^ 51 by norm_cast] at small
      linarith
    have small : (2 : ℚ) ^ (t + 53 - x.exponent) = 2 ^ 52 := by
      rw [near, show x.exponent - 1 + 53 - x.exponent = (52 : Nat) by omega, zpow_natCast]
    have few : (x.mantissa : ℚ) < 2 ^ 52 + 1 := by linarith
    have : x.mantissa < 2 ^ 52 + 1 := by exact_mod_cast few
    exact ⟨near, by omega, by omega⟩
  · exact .inl same
  · exfalso
    have le := above (by have := canonical.least; omega)
    have more : (2 : ℚ) ^ (53 : Nat) ≤ v / 2 ^ x.exponent := by
      rw [le_div_iff₀ power, ← zpow_natCast, ← scaled]
      exact (zpow_le_zpow_right₀ one_le_two (by omega)).trans le
    have few : (x.mantissa : ℚ) + 1 ≤ 2 ^ 53 := by exact_mod_cast canonical.few
    have high := h.high
    linarith

/-- At its exponent, a number in the interval of a magnitude is nearest to the magnitude's bits. -/
theorem Magnitude.Reaches.nearest (h : x.Reaches v) : Nearest x.mantissa (v / 2 ^ x.exponent) := by
  have ⟨low, high, even⟩ := h
  have margin := x.margin_le
  refine ⟨by linarith, high, ?_⟩
  rintro (down | up)
  · exact even (.inl (by linarith))
  · exact even (.inr up)

/-- Just below a power of two, a number in the interval of it is nearest to twice its bits. -/
theorem Magnitude.Reaches.nearest_below (h : x.Reaches v) (narrow : x.narrowBelow = true)
    (power : x.mantissa = 2 ^ 52) (below : v < 2 ^ (x.exponent + 52)) :
    Nearest (2 ^ 53) (v / 2 ^ (x.exponent - 1)) := by
  have positive : (0 : ℚ) < 2 ^ x.exponent := by positivity
  have twice : v / 2 ^ (x.exponent - 1) = 2 * (v / 2 ^ x.exponent) := by
    rw [zpow_sub_one₀ two_ne_zero]
    field_simp
  have less : v / 2 ^ x.exponent < 2 ^ (52 : Nat) := by
    rw [div_lt_iff₀ positive, ← zpow_natCast, ← zpow_add₀ two_ne_zero, add_comm]
    exact below
  have low := h.low
  rw [power, Magnitude.margin, if_pos narrow] at low
  push_cast at low
  rw [twice]
  refine ⟨?_, ?_, fun _ => by decide⟩
  · push_cast
    linarith
  · push_cast
    linarith

/-- Few bits above the least exponent are kept as they are. -/
theorem shiftToTargetExponent_few (few : n < 2 ^ 53) (least : -1074 ≤ e) :
    shiftToTargetExponent Format.binary64 n e .exact = (⟨n, false, false⟩, e) := by
  have short : n.log2 ≤ 52 := by
    by_cases zero : n = 0
    · rw [zero]
      decide
    · exact Nat.le_of_lt_succ ((Nat.log2_lt zero).2 few)
  have none : (Format.binary64.targetExponent (totalExponent n e) - e).toNat = 0 := by
    rw [targetExponent_eq, totalExponent]
    omega
  unfold shiftToTargetExponent shiftToExponent
  simp only [none]
  rw [Int.natCast_zero, Int.add_zero]
  rfl

/-- Few bits above the least exponent are rounded to themselves. -/
theorem roundWithAccuracy_few (s : Sign) (few : n < 2 ^ 53) (least : -1074 ≤ e)
    (positive : 0 < n) :
    roundWithAccuracy Format.binary64 s n e .exact = .finite s n e positive := by
  have kept : ExtendedMantissa.roundedMantissa ⟨n, false, false⟩ = n := rfl
  unfold roundWithAccuracy
  simp only [shiftToTargetExponent_few few least, kept]
  exact dif_neg positive.ne'

/-- One bit too many is dropped, if it is a zero behind a one. -/
theorem shiftToTargetExponent_carry (least : -1074 ≤ e) :
    shiftToTargetExponent Format.binary64 (2 ^ 53) e .exact =
      (⟨2 ^ 52, false, false⟩, e + 1) := by
  have one : (Format.binary64.targetExponent (totalExponent (2 ^ 53) e) - e).toNat = 1 := by
    rw [targetExponent_eq, totalExponent, Nat.log2_two_pow]
    omega
  unfold shiftToTargetExponent shiftToExponent
  simp only [one]
  rfl

/-- Every number in the interval of a magnitude is rounded to it, from enough of its bits. -/
theorem roundWithAccuracy_eq (s : Sign) (h : x.Reaches v) (canonical : x.Canonical)
    (kept : Keeps (.ofMantissaAndAccuracy m accuracy) (v / 2 ^ e))
    (precise : 52 ≤ m.log2 ∨ e ≤ -1074) (positive : 0 < x.mantissa) :
    roundWithAccuracy Format.binary64 s m e accuracy =
      .finite s x.mantissa x.exponent positive := by
  generalize target : Format.binary64.targetExponent (totalExponent m e) = t
  rw [targetExponent_eq, totalExponent] at target
  have least : -1074 ≤ t := by omega
  have le : e ≤ t := by omega
  have first : shiftToTargetExponent Format.binary64 m e accuracy =
      (ExtendedMantissa.ofMantissaAndAccuracy m accuracy >>> (t - e).toNat, t) := by
    unfold shiftToTargetExponent shiftToExponent
    rw [targetExponent_eq, totalExponent, target]
    simp only [Prod.mk.injEq, true_and]
    omega
  -- the bits that are left tell what is nearest at the exponent to which they are shifted
  have rounded : Nearest (ExtendedMantissa.roundedMantissa
      (ExtendedMantissa.ofMantissaAndAccuracy m accuracy >>> (t - e).toNat)) (v / 2 ^ t) := by
    have shifted := (kept.shiftRight (t - e).toNat).nearest
    have value : v / 2 ^ e / 2 ^ (t - e).toNat = v / 2 ^ t := by
      rw [div_div, ← zpow_natCast, ← zpow_add₀ two_ne_zero]
      congr 2
      omega
    rwa [value] at shifted
  have below := kept.lt_binade
  have above := kept.binade_le
  rw [totalExponent] at below above
  have where' := h.exponent canonical
    (below.trans_le (zpow_le_zpow_right₀ one_le_two (by omega)))
    (fun inner => (zpow_le_zpow_right₀ one_le_two (by omega)).trans
      (above (fun zero => by rw [zero] at precise target; simp at precise target; omega))) least
  unfold roundWithAccuracy
  rw [first]
  simp only
  rcases where' with rfl | ⟨rfl, power, inner⟩
  · rw [rounded.unique h.nearest, shiftToTargetExponent_few canonical.few canonical.least]
    exact dif_neg positive.ne'
  · have narrow := canonical.narrow.2 ⟨power, inner⟩
    have carried := h.nearest_below narrow power
      (below.trans_le (zpow_le_zpow_right₀ one_le_two (by omega)))
    rw [rounded.unique carried, shiftToTargetExponent_carry least]
    simp only [power]
    rw [dif_neg (by decide)]
    congr 1
    omega

end Pipewright.Decimal
