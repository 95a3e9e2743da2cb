import Mathlib
import Pipewright.Decimal.Reading
import Pipewright.Proofs.Decimal.Bits

/-! # Reading the nearest number
A decimal is read as the number in whose interval it lies, however it is computed: few digits and a
small power of ten by one product or quotient of exact numbers, others from all of their digits. -/

namespace Pipewright.Decimal

open Float.Model (Format UnpackedFloat totalExponent)
open Float.Model.UnpackedFloat (Sign roundWithAccuracy accuracyOfFraction shiftToTargetExponent
  decreaseExponent unpackExponent_packComponents unpackMantissa_packComponents unpackSign_packComponents)

variable {x : Magnitude} {v : ℚ} {s s₁ s₂ : Sign} {m m₁ m₂ : Nat} {e e₁ e₂ : Int} {p₁ : 0 < m₁}
  {p₂ : 0 < m₂}

/-! ## Products and quotients -/

/-- A product of numbers with enough bits is rounded to the magnitude in whose interval it lies. -/
theorem mul_eq (h : x.Reaches (m₁ * 2 ^ e₁ * (m₂ * 2 ^ e₂))) (canonical : x.Canonical)
    (precise : 2 ^ 52 ≤ m₁ * m₂) (positive : 0 < x.mantissa) :
    UnpackedFloat.mul Format.binary64 (.finite s₁ m₁ e₁ p₁) (.finite s₂ m₂ e₂ p₂) =
      .finite (s₁ * s₂) x.mantissa x.exponent positive := by
  have power : (2 : ℚ) ^ (e₁ + e₂) ≠ 0 := by positivity
  have whole : (m₁ * 2 ^ e₁ * (m₂ * 2 ^ e₂) : ℚ) / 2 ^ (e₁ + e₂) = (m₁ * m₂ : Nat) := by
    rw [div_eq_iff power, zpow_add₀ two_ne_zero]
    push_cast
    ring
  have kept : Keeps (.ofMantissaAndAccuracy (m₁ * m₂) .exact)
      ((m₁ * 2 ^ e₁ * (m₂ * 2 ^ e₂) : ℚ) / 2 ^ (e₁ + e₂)) := by
    rw [whole]
    exact .exact _
  have some : m₁ * m₂ ≠ 0 := by omega
  exact roundWithAccuracy_eq _ h canonical kept (.inl ((Nat.le_log2 some).2 precise)) positive

/-- A quotient is rounded to the magnitude in whose interval it lies. -/
theorem div_eq (h : x.Reaches (m₁ * 2 ^ e₁ / (m₂ * 2 ^ e₂))) (canonical : x.Canonical)
    (positive : 0 < x.mantissa) :
    UnpackedFloat.div Format.binary64 (.finite s₁ m₁ e₁ p₁) (.finite s₂ m₂ e₂ p₂) =
      .finite (s₁ / s₂) x.mantissa x.exponent positive := by
  generalize target : min (e₁ - e₂) (Format.binary64.targetExponent
    (totalExponent m₁ e₁ - totalExponent m₂ e₂)) = t
  have opened : UnpackedFloat.div Format.binary64 (.finite s₁ m₁ e₁ p₁) (.finite s₂ m₂ e₂ p₂) =
      roundWithAccuracy Format.binary64 (s₁ / s₂) ((m₁ <<< (e₁ - e₂ - t).toNat) / m₂) t
        (accuracyOfFraction ((m₁ <<< (e₁ - e₂ - t).toNat) % m₂) m₂) := by
    rw [← target]
    rfl
  rw [targetExponent_eq, totalExponent, totalExponent] at target
  have shifted : ((m₁ <<< (e₁ - e₂ - t).toNat : Nat) : ℚ) = m₁ * 2 ^ (e₁ - e₂ - t) := by
    rw [Nat.shiftLeft_eq]
    push_cast
    rw [← zpow_natCast]
    congr 2
    omega
  have value : (m₁ * 2 ^ e₁ / (m₂ * 2 ^ e₂) : ℚ) / 2 ^ t =
      (m₁ <<< (e₁ - e₂ - t).toNat : Nat) / m₂ := by
    rw [shifted, zpow_sub₀ two_ne_zero, zpow_sub₀ two_ne_zero]
    field_simp
  have kept := Keeps.quotient (m₁ <<< (e₁ - e₂ - t).toNat) p₂
  rw [← value] at kept
  rw [opened]
  refine roundWithAccuracy_eq _ h canonical kept ?_ positive
  -- the dividend is shifted until the quotient has all of the bits that are kept
  by_cases least : t ≤ -1074
  · exact .inr least
  · left
    have above : m₁.log2 + (e₁ - e₂ - t).toNat ≥ m₂.log2 + 53 := by omega
    have many : 2 ^ (m₂.log2 + 53) ≤ m₁ <<< (e₁ - e₂ - t).toNat := by
      rw [Nat.shiftLeft_eq]
      calc 2 ^ (m₂.log2 + 53) ≤ 2 ^ (m₁.log2 + (e₁ - e₂ - t).toNat) :=
            Nat.pow_le_pow_right (by decide) above
        _ = 2 ^ m₁.log2 * 2 ^ (e₁ - e₂ - t).toNat := Nat.pow_add ..
        _ ≤ m₁ * 2 ^ (e₁ - e₂ - t).toNat :=
            Nat.mul_le_mul_right _ (Nat.log2_self_le p₁.ne')
    have bound : 2 ^ 52 * m₂ ≤ 2 ^ (m₂.log2 + 53) := by
      have : m₂ < 2 ^ (m₂.log2 + 1) := Nat.lt_log2_self
      calc 2 ^ 52 * m₂ ≤ 2 ^ 52 * 2 ^ (m₂.log2 + 1) := Nat.mul_le_mul_left _ this.le
        _ = 2 ^ (m₂.log2 + 53) := by
          rw [← Nat.pow_add]
          congr 1
          omega
    have enough : 2 ^ 52 ≤ m₁ <<< (e₁ - e₂ - t).toNat / m₂ :=
      (Nat.le_div_iff_mul_le p₂).2 (bound.trans many)
    exact (Nat.le_log2 (by have := Nat.two_pow_pos 52; omega)).2 enough

/-! ## Bounds -/

/-- A number in the interval of a magnitude is not too small. -/
theorem Magnitude.Reaches.le (h : x.Reaches v) (canonical : x.Canonical)
    (positive : 0 < x.mantissa) : 2 ^ (-1075 : Int) ≤ v := by
  have power : (0 : ℚ) < 2 ^ x.exponent := by positivity
  have one : (1 : ℚ) ≤ x.mantissa := by exact_mod_cast positive
  have low := h.low
  have margin := x.margin_le
  have half : (1 : ℚ) / 2 ≤ v / 2 ^ x.exponent := by linarith
  rw [le_div_iff₀ power] at half
  calc (2 : ℚ) ^ (-1075 : Int) ≤ 2 ^ (-1 + x.exponent) :=
        zpow_le_zpow_right₀ one_le_two (by have := canonical.least; omega)
    _ = 1 / 2 * 2 ^ x.exponent := by
        rw [zpow_add₀ two_ne_zero]
        norm_num
    _ ≤ v := half

/-- A number in the interval of a magnitude is not too large. -/
theorem Magnitude.Reaches.lt (h : x.Reaches v) (canonical : x.Canonical)
    (most : x.exponent ≤ 971) : v < 2 ^ (1024 : Int) := by
  have power : (0 : ℚ) < 2 ^ x.exponent := by positivity
  have few : (x.mantissa : ℚ) + 1 ≤ 2 ^ 53 := by exact_mod_cast canonical.few
  have high := h.high
  have less : v / 2 ^ x.exponent < 2 ^ (53 : Int) := by
    rw [show (2 : ℚ) ^ (53 : Int) = 2 ^ 53 by norm_cast]
    linarith
  rw [div_lt_iff₀ power, ← zpow_add₀ two_ne_zero] at less
  exact less.trans_le (zpow_le_zpow_right₀ one_le_two (by omega))

/-! ## Decimals -/

/-- A decimal in the interval of a magnitude is read as it from all of its digits. -/
theorem unpacked_ofScientific_eq (h : x.Reaches (m * 10 ^ e)) (canonical : x.Canonical)
    (most : x.exponent ≤ 971) (positive : 0 < x.mantissa) (some : 0 < m) :
    UnpackedFloat.ofScientific Format.binary64 m e =
      .finite .positive x.mantissa x.exponent positive := by
  have one : (1 : ℚ) ≤ m := by exact_mod_cast some
  have exponents : (2 : Int) ^ Format.binary64.exponentBits = 2048 := by decide
  -- a number that reaches a finite one is neither beyond the largest power nor below the least
  have notLarge : ¬ e > 2 ^ Format.binary64.exponentBits := by
    rw [exponents]
    intro large
    have less := h.lt canonical most
    have : (2 : ℚ) ^ (1024 : Int) < m * 10 ^ e := calc
      (2 : ℚ) ^ (1024 : Int) < 2 ^ e := zpow_lt_zpow_right₀ one_lt_two (by omega)
      _ ≤ 10 ^ e := zpow_le_zpow_left₀ (by omega) (by norm_num) (by norm_num)
      _ ≤ m * 10 ^ e := le_mul_of_one_le_left (by positivity) one
    exact absurd less (not_lt.2 this.le)
  have notSmall : ¬ e < -(2 ^ Format.binary64.exponentBits + (m.log2 : Int)) := by
    rw [exponents]
    intro small
    have le := h.le canonical positive
    have few : (m : ℚ) < 2 ^ (m.log2 + 1 : Int) := by exact_mod_cast Nat.lt_log2_self
    have power : (0 : ℚ) < 10 ^ e := by positivity
    have tiny : (10 : ℚ) ^ e ≤ 2 ^ e := by
      rw [← inv_le_inv₀ (by positivity) power, ← zpow_neg, ← zpow_neg]
      exact zpow_le_zpow_left₀ (by omega) (by norm_num) (by norm_num)
    have : (m : ℚ) * 10 ^ e < 2 ^ (-1075 : Int) := calc
      (m : ℚ) * 10 ^ e < 2 ^ (m.log2 + 1 : Int) * 10 ^ e := mul_lt_mul_of_pos_right few power
      _ ≤ 2 ^ (m.log2 + 1 : Int) * 2 ^ e := mul_le_mul_of_nonneg_left tiny (by positivity)
      _ = 2 ^ (m.log2 + 1 + e) := (zpow_add₀ two_ne_zero _ _).symm
      _ ≤ 2 ^ (-1075 : Int) := zpow_le_zpow_right₀ one_le_two (by omega)
    exact absurd le (not_le.2 this)
  unfold UnpackedFloat.ofScientific
  rw [dif_neg some.ne', if_neg notLarge, if_neg notSmall]
  split
  · next nonneg =>
    -- a power that is not negative is multiplied with, any other one is divided by
    refine mul_eq ?_ canonical ?_ positive
    · convert h using 1
      rw [Nat.shiftLeft_eq]
      push_cast
      rw [zpow_neg, zpow_natCast, mul_one, mul_inv_cancel_right₀ (by positivity),
        ← zpow_natCast, Int.toNat_of_nonneg nonneg]
    · have large : 2 ^ 52 ≤ m <<< 53 := by
        rw [Nat.shiftLeft_eq]
        omega
      exact large.trans (Nat.le_mul_of_pos_right _ (by positivity))
  · next negative =>
    refine div_eq ?_ canonical positive
    convert h using 1
    push_cast
    rw [mul_one, mul_one, ← zpow_natCast, Int.toNat_of_nonneg (by omega), zpow_neg,
      div_inv_eq_mul]

/-- A number with all of its bits has the parts that it is packed from. -/
theorem unpack_pack (positive : 0 < m) (full : 2 ^ 52 ≤ m) (few : m < 2 ^ 53)
    (least : -1074 ≤ e) (most : e ≤ 971) :
    (Float.Model.pack (.finite s m e positive)).unpack = .finite s m e positive := by
  have length : m.log2 + 1 = Format.binary64.mantissaBits := by
    rw [(Nat.log2_eq_iff positive.ne').2 ⟨full, few⟩]
    rfl
  generalize bits : (e + 1075).toNat = biased
  have small : biased < 2 ^ 11 := by omega
  have packed : UnpackedFloat.pack Format.binary64 (.finite s m e positive) =
      UnpackedFloat.packComponents Format.binary64 s (BitVec.ofNat 11 biased)
        (BitVec.ofNat 52 m) := by
    have biased' : (e + (Format.binary64.exponentBias : Nat) +
        (Format.binary64.mantissaBitsWithoutImplicit : Nat)).toNat = biased := by
      rw [← bits]
      congr 1
      exact add_assoc e 1023 52
    unfold UnpackedFloat.pack
    simp only [biased']
    rw [if_neg (by show ¬ 2048 ≤ biased + 1; omega), if_pos length]
  have exponent : (BitVec.ofNat 11 biased).toNat = biased := by
    rw [BitVec.toNat_ofNat, Nat.mod_eq_of_lt small]
  -- the bits of the exponent are neither those of infinity nor those of a number below normal
  have inner : BitVec.ofNat 11 biased ≠ -1#11 := by
    intro top
    have := congrArg BitVec.toNat top
    rw [exponent] at this
    have : biased = 2047 := this
    omega
  have normal : BitVec.ofNat 11 biased ≠ 0#11 := by
    intro bottom
    have := congrArg BitVec.toNat bottom
    rw [exponent] at this
    have : biased = 0 := this
    omega
  show UnpackedFloat.unpack Format.binary64 (UnpackedFloat.pack _ _) = _
  rw [packed]
  unfold UnpackedFloat.unpack
  simp only [unpackExponent_packComponents, unpackMantissa_packComponents,
    unpackSign_packComponents, Sign.ofBitVec_toBitVec]
  rw [if_neg inner, if_neg normal, UnpackedFloat.finite.injEq]
  have fraction : (BitVec.ofNat 52 m).toNat = m % 2 ^ 52 := BitVec.toNat_ofNat ..
  refine ⟨rfl, ?_, ?_⟩
  · rw [BitVec.toNat_append, ← Nat.shiftLeft_add_eq_or_of_lt (BitVec.isLt _), fraction]
    show 1 <<< 52 + _ = m
    omega
  · rw [exponent]
    show (biased : Int) - (1023 + 52) = e
    omega

/-! ## Exact numbers -/

/-- A number of a 64-bit word that has few bits is exact. -/
theorem exists_unpack_toFloat (some : 0 < m) (few : m < 2 ^ 53) :
    ∃ n k p, (UInt64.ofNat m).toFloat.toModel.unpack = .finite .positive n (-(k : Nat) : Int) p ∧
      2 ^ 52 ≤ n ∧ n = m * 2 ^ k := by
  have word : (UInt64.ofNat m).toNat = m := UInt64.toNat_ofNat_of_lt (by
    show m < 2 ^ 64
    omega)
  generalize bits : 52 - m.log2 = k
  have short : m.log2 ≤ 52 := Nat.le_of_lt_succ ((Nat.log2_lt some.ne').2 few)
  -- shifted up to full length, the number has its leading bit in place and loses none
  have full : 2 ^ 52 ≤ m * 2 ^ k := by
    calc 2 ^ 52 = 2 ^ m.log2 * 2 ^ k := by
          rw [← Nat.pow_add]
          congr 1
          omega
      _ ≤ m * 2 ^ k := Nat.mul_le_mul_right _ (Nat.log2_self_le some.ne')
  have few' : m * 2 ^ k < 2 ^ 53 := by
    calc m * 2 ^ k < 2 ^ (m.log2 + 1) * 2 ^ k :=
          Nat.mul_lt_mul_of_pos_right Nat.lt_log2_self (Nat.two_pow_pos k)
      _ = 2 ^ 53 := by
          rw [← Nat.pow_add]
          congr 1
          omega
  have positive : 0 < m * 2 ^ k := Nat.mul_pos some (Nat.two_pow_pos k)
  have rounded : UnpackedFloat.ofUInt64 Format.binary64 (UInt64.ofNat m) =
      .finite .positive (m * 2 ^ k) (-(k : Int)) positive := by
    have target : Format.binary64.targetExponent (totalExponent m 0) = -(k : Int) := by
      rw [targetExponent_eq, totalExponent]
      omega
    have opened : UnpackedFloat.ofUInt64 Format.binary64 (UInt64.ofNat m) =
        UnpackedFloat.round Format.binary64 .positive m 0 := by
      have above : compare (m : Int) 0 = .gt := Int.compare_eq_gt.2 (by omega)
      show UnpackedFloat.normalize Format.binary64 ((UInt64.ofNat m).toNat : Int) 0 .positive = _
      rw [word]
      unfold UnpackedFloat.normalize
      rw [above]
      rfl
    have decreased : decreaseExponent m 0 (-(k : Int)) = (m * 2 ^ k, -(k : Int)) := by
      unfold decreaseExponent
      simp only [Nat.shiftLeft_eq, Int.zero_sub, Int.neg_neg, Int.toNat_natCast]
    rw [opened, UnpackedFloat.round]
    simp only [target, decreased]
    exact roundWithAccuracy_few _ few' (by omega) positive
  refine ⟨m * 2 ^ k, k, positive, ?_, full, rfl⟩
  show (Float.Model.pack (UnpackedFloat.ofUInt64 Format.binary64 (UInt64.ofNat m))).unpack = _
  rw [rounded]
  exact unpack_pack positive full few' (by omega) (by omega)

/-- Whether a number is a power of ten with all of its bits. -/
def isPowerOfTen (k : Nat) : UnpackedFloat → Bool
  | .finite .positive m e _ =>
    2 ^ 52 ≤ m && (if 0 ≤ e then m * 2 ^ e.toNat = 10 ^ k else m = 10 ^ k * 2 ^ (-e).toNat)
  | _ => false

/-- Small powers of ten are exact. -/
theorem isPowerOfTen_exactly : ∀ k : Fin 23,
    isPowerOfTen k (Float.exactlyRepresentablePowersOfTen[k]).toModel.unpack = true := by
  decide +kernel

/-- What a power of ten with all of its bits stands for. -/
theorem exists_of_isPowerOfTen {k : Nat} {u : UnpackedFloat} (h : isPowerOfTen k u = true) :
    ∃ n e p, u = .finite .positive n e p ∧ 2 ^ 52 ≤ n ∧ (n * 2 ^ e : ℚ) = 10 ^ k := by
  unfold isPowerOfTen at h
  split at h
  · next n e p =>
    rw [Bool.and_eq_true, decide_eq_true_iff] at h
    refine ⟨n, e, p, rfl, h.1, ?_⟩
    have value := h.2
    split at value
    · next nonneg =>
      rw [decide_eq_true_iff] at value
      have value : (n * 2 ^ e.toNat : ℚ) = 10 ^ k := by exact_mod_cast value
      rwa [← zpow_natCast, Int.toNat_of_nonneg nonneg] at value
    · next negative =>
      rw [decide_eq_true_iff] at value
      have value : (n : ℚ) = 10 ^ k * 2 ^ (-e).toNat := by exact_mod_cast value
      rw [value, ← zpow_natCast 2, Int.toNat_of_nonneg (by omega), mul_assoc,
        ← zpow_add₀ two_ne_zero, neg_add_cancel, zpow_zero, mul_one]
  · exact absurd h Bool.false_ne_true

/-! ## Reading -/

/-- The decimal that digits and an exponent stand for. -/
def valueOf (coefficient : Nat) (exponent : Int) : ℚ := coefficient * 10 ^ exponent

/-- A decimal in the interval of a magnitude is read as it. -/
theorem ofScientific_eq (h : x.Reaches (valueOf m (if b then -(n : Int) else n)))
    (canonical : x.Canonical) (most : x.exponent ≤ 971) (positive : 0 < x.mantissa)
    (some : 0 < m) :
    Float.ofScientific m b n = ⟨Float.Model.pack (.finite .positive x.mantissa x.exponent positive)⟩ := by
  unfold Float.ofScientific
  split
  · next exact =>
    -- few digits and a small power of ten: one operation on exact numbers
    obtain ⟨n₁, k, p₁, unpacked₁, full₁, value₁⟩ := exists_unpack_toFloat some exact.1
    obtain ⟨n₂, e₂, p₂, unpacked₂, full₂, value₂⟩ := exists_of_isPowerOfTen
      (isPowerOfTen_exactly ⟨n, by omega⟩)
    have value₁ : (n₁ * 2 ^ (-(k : Int)) : ℚ) = m := by
      rw [value₁]
      push_cast
      rw [zpow_neg, zpow_natCast, mul_inv_cancel_right₀ (by positivity)]
    cases b with
    | false =>
      refine congrArg (fun u => (⟨Float.Model.pack u⟩ : Float))
        (?_ : UnpackedFloat.mul Format.binary64 (UInt64.ofNat m).toFloat.toModel.unpack _ = _)
      rw [unpacked₁]
      refine (congrArg _ unpacked₂).trans (mul_eq ?_ canonical ?_ positive)
      · rw [value₁, value₂, ← zpow_natCast]
        exact h
      · exact full₁.trans (Nat.le_mul_of_pos_right _ p₂)
    | true =>
      refine congrArg (fun u => (⟨Float.Model.pack u⟩ : Float))
        (?_ : UnpackedFloat.div Format.binary64 (UInt64.ofNat m).toFloat.toModel.unpack _ = _)
      rw [unpacked₁]
      refine (congrArg _ unpacked₂).trans (div_eq ?_ canonical positive)
      rw [value₁, value₂, div_eq_mul_inv, ← zpow_natCast, ← zpow_neg]
      exact h
  · next large =>
    refine congrArg (fun u => (⟨Float.Model.pack u⟩ : Float)) (?_ :
      UnpackedFloat.ofScientific Format.binary64 m _ = _)
    refine unpacked_ofScientific_eq ?_ canonical most positive some
    cases b with
    | false => exact h
    | true =>
      have exponent : Int.negOfNat n = -(n : Int) := Int.negOfNat_eq
      rw [if_pos rfl, exponent]
      exact h

/-- The digits of a number tell the power of ten above it. -/
theorem lt_pow_length (n : Nat) : n < 10 ^ (Nat.toDigits 10 n).length :=
  (Nat.length_toDigits_le_iff (by decide) Nat.length_toDigits_pos).1 (le_refl _)

/-- The digits of a number tell the power of ten below it. -/
theorem pow_length_le (some : 0 < n) : 10 ^ ((Nat.toDigits 10 n).length - 1) ≤ n := by
  by_cases one : (Nat.toDigits 10 n).length - 1 = 0
  · rw [one]
    exact some
  · refine Nat.le_of_not_lt fun less => ?_
    have := (Nat.length_toDigits_le_iff (by decide) (Nat.pos_of_ne_zero one)).2 less
    omega

/-- A decimal is less than the power of ten above its first digit. -/
theorem valueOf_lt (m : Nat) (e : Int) :
    valueOf m e < 10 ^ (e + (Nat.toDigits 10 m).length) := by
  have few : (m : ℚ) < 10 ^ (Nat.toDigits 10 m).length := by exact_mod_cast lt_pow_length m
  rw [zpow_add₀ (by norm_num), zpow_natCast, mul_comm ((10 : ℚ) ^ e)]
  exact mul_lt_mul_of_pos_right few (by positivity)

/-- A decimal is at least the power of ten of its first digit. -/
theorem le_valueOf (some : 0 < m) (e : Int) :
    10 ^ (e + (Nat.toDigits 10 m).length - 1) ≤ valueOf m e := by
  have many : (10 : ℚ) ^ ((Nat.toDigits 10 m).length - 1) ≤ m := by
    exact_mod_cast pow_length_le some
  have length : 0 < (Nat.toDigits 10 m).length := Nat.length_toDigits_pos
  have split : e + (Nat.toDigits 10 m).length - 1 =
      ((Nat.toDigits 10 m).length - 1 : Nat) + e := by omega
  rw [split, zpow_add₀ (by norm_num), zpow_natCast]
  exact mul_le_mul_of_nonneg_right many (by positivity)

/-- A decimal in the interval of a magnitude is read as the positive number of that magnitude. -/
theorem nearestFloat_eq (h : x.Reaches (valueOf m e)) (canonical : x.Canonical)
    (most : x.exponent ≤ 971) (positive : 0 < x.mantissa) (some : 0 < m) :
    nearestFloat false m e =
      ⟨Float.Model.pack (.finite .positive x.mantissa x.exponent positive)⟩ := by
  have eight : ∀ n : Int, 0 ≤ n → (2 : ℚ) ^ (3 * n) ≤ 10 ^ n := by
    intro n nonneg
    rw [zpow_mul]
    exact zpow_le_zpow_left₀ nonneg (by norm_num) (by norm_num)
  -- the limits of the reader lie beyond what any finite number can reach
  have notSmall : ¬ e + (Nat.toDigits 10 m).length < -400 := by
    intro small
    have : valueOf m e < 2 ^ (-1075 : Int) := calc
      valueOf m e < 10 ^ (e + (Nat.toDigits 10 m).length) := valueOf_lt m e
      _ ≤ 10 ^ (-401 : Int) := zpow_le_zpow_right₀ (by norm_num) (by omega)
      _ ≤ (2 ^ (3 * 401 : Int))⁻¹ := by
        rw [zpow_neg]
        exact inv_anti₀ (by positivity) (eight 401 (by decide))
      _ ≤ 2 ^ (-1075 : Int) := by
        rw [← zpow_neg]
        exact zpow_le_zpow_right₀ one_le_two (by decide)
    exact absurd (h.le canonical positive) (not_le.2 this)
  have notLarge : ¬ 400 < e + (Nat.toDigits 10 m).length := by
    intro large
    have : (2 : ℚ) ^ (1024 : Int) ≤ valueOf m e := calc
      (2 : ℚ) ^ (1024 : Int) ≤ 2 ^ (3 * 400 : Int) :=
        zpow_le_zpow_right₀ one_le_two (by decide)
      _ ≤ 10 ^ (400 : Int) := eight 400 (by decide)
      _ ≤ 10 ^ (e + (Nat.toDigits 10 m).length - 1) :=
        zpow_le_zpow_right₀ (by norm_num) (by omega)
      _ ≤ valueOf m e := le_valueOf some e
    exact absurd (h.lt canonical most) (not_lt.2 this)
  unfold nearestFloat
  simp only [Bool.false_eq_true, if_false]
  rw [if_neg (by simp [some.ne', notSmall]), if_neg notLarge]
  split
  · next nonneg =>
    refine ofScientific_eq ?_ canonical most positive some
    rw [if_neg Bool.false_ne_true, Int.toNat_of_nonneg nonneg]
    exact h
  · next negative =>
    refine ofScientific_eq ?_ canonical most positive some
    rw [if_pos rfl, Int.toNat_of_nonneg (by omega), Int.neg_neg]
    exact h

end Pipewright.Decimal
