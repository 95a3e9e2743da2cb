import Mathlib
import Pipewright.Proofs.Decimal.Rounding

/-! # The bits of floating-point numbers
A floating-point number is told by its bits: a sign, eleven bits of exponent and fifty-two of
fraction. There is one number that is none, and one infinity for each sign; every other number is
zero or has a magnitude of the format. -/

namespace Pipewright.Decimal

open Float.Model (Format UnpackedFloat)
open Float.Model.UnpackedFloat (Sign unpackSign unpackExponent unpackMantissa packComponents
  unpackExponent_packComponents unpackMantissa_packComponents unpackSign_packComponents)

/-- Numbers are told by their sign and their magnitude. -/
theorem eq_of_unpack_eq {x y : Float} (h : x.toModel.unpack = y.toModel.unpack) : x = y := by
  obtain ⟨⟨⟨a⟩, valid⟩⟩ := x
  obtain ⟨⟨⟨b⟩, valid'⟩⟩ := y
  obtain rfl : a = b := (UnpackedFloat.unpack_inj_of_valid valid valid').1 h
  rfl

/-- A number is what its parts are packed into. -/
theorem eq_pack (x : Float) : x = ⟨Float.Model.pack x.toModel.unpack⟩ := by
  obtain ⟨⟨⟨a⟩, valid⟩⟩ := x
  congr 3
  exact (UnpackedFloat.pack_unpack_of_valid valid).symm

/-! ## Special numbers -/

/-- The number that is none has neither a sign nor a magnitude. -/
theorem unpack_of_isNaN {x : Float} (h : x.isNaN = true) : x.toModel.unpack = .notANumber :=
  UnpackedFloat.isNaN_iff.1 h

/-- The number that is none comes from dividing zero by itself. -/
theorem eq_nan {x : Float} (h : x.isNaN = true) : x = 0 / 0 := by
  have none : (0 / 0 : Float).isNaN = true := by decide +kernel
  exact eq_of_unpack_eq ((unpack_of_isNaN h).trans (unpack_of_isNaN none).symm)

/-- The infinities come from dividing one by zero; the positive one is above zero. -/
theorem eq_infinity {x : Float} (h : x.isInf = true) :
    x = if 0 < x then 1 / 0 else -(1 / 0) := by
  have infinite : x.toModel.unpack.isInf = true := h
  have packed := eq_pack x
  cases parts : x.toModel.unpack with
  | infinity s =>
    rw [parts] at packed
    subst packed
    cases s with
    | positive =>
      rw [if_pos (by decide +kernel)]
      rfl
    | negative =>
      rw [if_neg (by decide +kernel)]
      rfl
  | _ =>
    rw [parts] at infinite
    exact absurd infinite Bool.false_ne_true

/-! ## Parts of the bits -/

/-- The fraction is in the lowest bits. -/
theorem toNat_unpackMantissa (b : BitVec 64) :
    (@unpackMantissa Format.binary64 b).toNat = b.toNat % 2 ^ 52 := by
  simp [unpackMantissa]

/-- The exponent is in the bits above the fraction. -/
theorem toNat_unpackExponent (b : BitVec 64) :
    (@unpackExponent Format.binary64 b).toNat = b.toNat / 2 ^ 52 % 2 ^ 11 := by
  simp [unpackExponent, Nat.shiftRight_eq_div_pow]

/-- The sign is in the highest bit. -/
theorem toNat_unpackSign (b : BitVec 64) :
    (@unpackSign Format.binary64 b).toNat = b.toNat / 2 ^ 63 := by
  have small : b.toNat / 2 ^ 63 < 2 ^ 1 := by
    have : b.toNat < 2 ^ 64 := b.isLt
    omega
  simp only [unpackSign, BitVec.toNat_cast, BitVec.extractLsb_toNat, Nat.shiftRight_eq_div_pow]
  exact Nat.mod_eq_of_lt small

/-- The sign of a number. -/
def signOf (x : Float) : Sign := if isNegative x then .negative else .positive

/-- The sign is told by the highest bit. -/
theorem ofBitVec_unpackSign (x : Float) :
    Sign.ofBitVec (@unpackSign Format.binary64 x.toModel.toBits.toBitVec) = signOf x := by
  have bit := toNat_unpackSign x.toModel.toBits.toBitVec
  have few : x.toModel.toBits.toBitVec.toNat < 2 ^ 64 := x.toModel.toBits.toBitVec.isLt
  have told : isNegative x = decide (2 ^ 63 ≤ x.toModel.toBits.toBitVec.toNat) := rfl
  unfold signOf
  rw [told]
  generalize @unpackSign Format.binary64 x.toModel.toBits.toBitVec = b at bit
  by_cases negative : 2 ^ 63 ≤ x.toModel.toBits.toBitVec.toNat
  · obtain rfl : b = 1#1 := BitVec.eq_of_toNat_eq (by rw [bit]; show _ = 1; omega)
    rw [decide_eq_true negative, if_pos rfl]
    rfl
  · obtain rfl : b = 0#1 := BitVec.eq_of_toNat_eq (by rw [bit]; show _ = 0; omega)
    rw [decide_eq_false negative, if_neg Bool.false_ne_true]
    rfl

/-! ## Opposite numbers -/

/-- With the other sign bit a number has the other sign. -/
theorem unpack_flipped (b : BitVec 64) :
    UnpackedFloat.unpack Format.binary64 (packComponents Format.binary64
        (-(.ofBitVec (@unpackSign Format.binary64 b))) (unpackExponent b) (unpackMantissa b)) =
      (UnpackedFloat.unpack Format.binary64 b).neg := by
  unfold UnpackedFloat.unpack
  simp only [unpackExponent_packComponents, unpackMantissa_packComponents,
    unpackSign_packComponents, Sign.ofBitVec_toBitVec]
  split
  · split <;> rfl
  · split
    · split <;> rfl
    · rfl

/-- The opposite of a number has the other sign. -/
theorem unpack_neg (x : Float) : (-x).toModel.unpack = x.toModel.unpack.neg := by
  have opened : (-x).toModel.unpack = UnpackedFloat.unpack Format.binary64
      (UnpackedFloat.pack Format.binary64 x.toModel.unpack.neg) := rfl
  have flipped : x.toModel.unpack.neg = _ := (unpack_flipped x.toModel.toBits.toBitVec).symm
  rw [opened, flipped, UnpackedFloat.pack_unpack]
  split
  · next none =>
    -- the bits of the number that is none are not kept, but it is none with either sign
    simp only [UnpackedFloat.isNaNBits, decide_eq_true_iff] at none
    rw [UnpackedFloat.unpack_packedNaN, UnpackedFloat.unpack]
    simp only
    rw [if_pos none.1, if_neg none.2]
  · rfl

/-- The opposite of the opposite is the number itself. -/
theorem neg_neg (x : Float) : -(-x) = x := by
  refine eq_of_unpack_eq ?_
  rw [unpack_neg, unpack_neg]
  cases x.toModel.unpack with
  | notANumber => rfl
  | infinity s => cases s <;> rfl
  | zero s => cases s <;> rfl
  | finite s m e positive => cases s <;> rfl

/-! ## Magnitudes of finite numbers -/

/-- A number that is neither none nor infinite. -/
structure Finite (x : Float) : Prop where
  /-- It is a number. -/
  number : x.isNaN = false
  /-- It is not infinite. -/
  bounded : x.isInf = false

/-- A number has a sign and a magnitude, of which zero has no exponent. -/
inductive Unpacks (s : Sign) (m : Magnitude) : UnpackedFloat → Prop where
  /-- Zero. -/
  | zero (none : m.mantissa = 0) : Unpacks s m (.zero s)
  /-- Another number. -/
  | finite (positive : 0 < m.mantissa) : Unpacks s m (.finite s m.mantissa m.exponent positive)

/-- Another number with the bits and the exponent of a magnitude. -/
theorem Unpacks.of_eq {s : Sign} {x : Magnitude} {m : Nat} {e : Int} (positive : 0 < m)
    (bits : m = x.mantissa) (exponent : e = x.exponent) :
    Unpacks s x (.finite s m e positive) := by
  subst bits exponent
  exact .finite positive

/-- A finite number is its sign with its magnitude, which is one of the format. -/
theorem Finite.unpacks {x : Float} (h : Finite x) :
    Unpacks (signOf x) (Magnitude.ofFloat x) x.toModel.unpack ∧
      (Magnitude.ofFloat x).Canonical ∧ (Magnitude.ofFloat x).exponent ≤ 971 := by
  have sign := ofBitVec_unpackSign x
  have fraction := toNat_unpackMantissa x.toModel.toBits.toBitVec
  have biased := toNat_unpackExponent x.toModel.toBits.toBitVec
  have few : (@unpackMantissa Format.binary64 x.toModel.toBits.toBitVec).toNat < 2 ^ 52 :=
    BitVec.isLt _
  have few' : (@unpackExponent Format.binary64 x.toModel.toBits.toBitVec).toNat < 2 ^ 11 :=
    BitVec.isLt _
  have magnitude : Magnitude.ofFloat x =
      if x.toModel.toBits.toBitVec.toNat / 2 ^ 52 % 2 ^ 11 = 0 then
        ⟨x.toModel.toBits.toBitVec.toNat % 2 ^ 52, -1074, false⟩
      else ⟨x.toModel.toBits.toBitVec.toNat % 2 ^ 52 + 2 ^ 52,
        (x.toModel.toBits.toBitVec.toNat / 2 ^ 52 % 2 ^ 11 : Nat) - 1075,
        x.toModel.toBits.toBitVec.toNat % 2 ^ 52 = 0 &&
          1 < x.toModel.toBits.toBitVec.toNat / 2 ^ 52 % 2 ^ 11⟩ := rfl
  rw [← fraction, ← biased] at magnitude
  have opened : x.toModel.unpack =
    UnpackedFloat.unpack Format.binary64 x.toModel.toBits.toBitVec := rfl
  -- all bits of the exponent set would make an infinity or no number
  have inner : @unpackExponent Format.binary64 x.toModel.toBits.toBitVec ≠ -1#11 := by
    intro top
    have number : x.toModel.unpack.isNaN = false := h.number
    have bounded : x.toModel.unpack.isInf = false := h.bounded
    rw [opened, UnpackedFloat.unpack] at number bounded
    simp only at number bounded
    rw [if_pos top] at number bounded
    split at number
    · rename_i none
      rw [if_pos none] at bounded
      exact Bool.noConfusion bounded
    · exact Bool.noConfusion number
  have inner' : (@unpackExponent Format.binary64 x.toModel.toBits.toBitVec).toNat ≠ 2047 := by
    intro e
    exact inner (BitVec.eq_of_toNat_eq e)
  rw [opened, UnpackedFloat.unpack]
  simp only [sign]
  rw [if_neg inner]
  -- with no bit of the exponent set the leading bit is not added to the fraction
  by_cases least : @unpackExponent Format.binary64 x.toModel.toBits.toBitVec = 0#11
  · have least' : (@unpackExponent Format.binary64 x.toModel.toBits.toBitVec).toNat = 0 := by
      rw [least]
      rfl
    rw [if_pos least'] at magnitude
    rw [if_pos least, magnitude]
    refine ⟨?_, ⟨few.trans (by decide), le_refl _, .inr rfl, ?_⟩, ?_⟩
    · by_cases none : @unpackMantissa Format.binary64 x.toModel.toBits.toBitVec = 0#52
      · rw [dif_pos none]
        exact .zero (by show BitVec.toNat _ = 0; rw [none]; rfl)
      · rw [dif_neg none]
        refine .of_eq _ rfl ?_
        rw [least']
        rfl
    · show false = true ↔ _ ∧ (-1074 : Int) < -1074
      simp
    · show (-1074 : Int) ≤ 971
      decide
  · have more : (@unpackExponent Format.binary64 x.toModel.toBits.toBitVec).toNat ≠ 0 :=
      fun e => least (BitVec.eq_of_toNat_eq e)
    rw [if_neg more] at magnitude
    rw [if_neg least, magnitude]
    refine ⟨.of_eq _ ?_ ?_, ⟨Nat.add_lt_add_right few _, ?_, .inl ?_, ?_⟩, ?_⟩
    · rw [BitVec.toNat_append, ← Nat.shiftLeft_add_eq_or_of_lt few]
      show 1 <<< 52 + _ = _ + 2 ^ 52
      omega
    · rfl
    · show -1074 ≤ ((BitVec.toNat _ : Nat) : Int) - 1075
      omega
    · exact Nat.le_add_left _ _
    · show (decide _ && decide _) = true ↔ _ + 2 ^ 52 = 2 ^ 52 ∧ -1074 < ((BitVec.toNat _ : Nat) : Int) - 1075
      rw [Bool.and_eq_true, decide_eq_true_iff, decide_eq_true_iff]
      omega
    · show ((BitVec.toNat _ : Nat) : Int) - 1075 ≤ 971
      omega

end Pipewright.Decimal
