import Mathlib.Tactic.SplitIfs

/-! # The order of bytes
Texts are in the order of the bytes that they are encoded with in UTF-8: the first byte at which two
encoded characters differ is smaller in the smaller character. -/

namespace Pipewright.Text

/-- The bytes of a text in UTF-8. -/
def bytes (text : String) : List UInt8 := text.toUTF8.data.toList

/-- The bytes of a text are those of its characters. -/
theorem bytes_eq (text : String) : bytes text = text.toList.flatMap String.utf8EncodeChar := by
  have encoded : text.toUTF8 = (text.toList.flatMap String.utf8EncodeChar).toByteArray := by
    conv => lhs; rw [← String.ofList_toList (s := text)]
    rfl
  unfold bytes
  rw [encoded, List.toList_data_toByteArray]

/-- Bytes are in the order of their numbers, and then in that of the bytes behind them. -/
theorem ofNat_cons_lt {a b : Nat} (small : a < 256) (small' : b < 256) {rest rest' : List UInt8} :
    UInt8.ofNat a :: rest < UInt8.ofNat b :: rest' ↔ a < b ∨ a = b ∧ rest < rest' := by
  rw [List.cons_lt_cons_iff, UInt8.lt_iff_toNat_lt, ← UInt8.toNat_inj, UInt8.toNat_ofNat',
    UInt8.toNat_ofNat', Nat.mod_eq_of_lt small, Nat.mod_eq_of_lt small']

/-- The bytes of a smaller character are smaller, whatever follows the characters. -/
theorem utf8EncodeChar_append_lt {c d : Char} (h : c < d) (rest rest' : List UInt8) :
    String.utf8EncodeChar c ++ rest < String.utf8EncodeChar d ++ rest' := by
  have below : c.val.toNat < d.val.toNat := h
  have most : d.val.toNat < 0x110000 := by
    have valid := d.valid
    unfold UInt32.isValidChar Nat.isValidChar at valid
    omega
  unfold String.utf8EncodeChar
  generalize c.val.toNat = m at below
  generalize d.val.toNat = n at below most
  have nested : m / 64 / 64 = m / 4096 ∧ m / 4096 / 64 = m / 262144 ∧
      n / 64 / 64 = n / 4096 ∧ n / 4096 / 64 = n / 262144 := by omega
  have first : m / 262144 % 8 = m / 262144 ∧ n / 262144 % 8 = n / 262144 := by omega
  simp only
  split_ifs
  -- a longer encoding starts with a larger byte; of two that are equally long the bytes are the digits of
  -- the two numbers to base 64
  all_goals first
    | omega
    | simp (disch := omega) only [List.cons_append, List.nil_append, ofNat_cons_lt]
      omega

/-- The bytes of a smaller text are smaller. -/
theorem flatMap_lt {cs ds : List Char} (h : cs < ds) :
    cs.flatMap String.utf8EncodeChar < ds.flatMap String.utf8EncodeChar := by
  induction h with
  | nil =>
    rw [List.flatMap_nil, List.flatMap_cons]
    obtain ⟨b, bs, e⟩ := List.exists_cons_of_ne_nil String.utf8EncodeChar_ne_nil
    rw [e]
    exact List.nil_lt_cons _ _
  | rel below =>
    rw [List.flatMap_cons, List.flatMap_cons]
    exact utf8EncodeChar_append_lt below _ _
  | cons _ ih =>
    rw [List.flatMap_cons, List.flatMap_cons]
    exact List.append_left_lt ih

/-- Texts are in the order of their bytes. -/
theorem bytes_lt_iff {a b : String} : bytes a < bytes b ↔ a < b := by
  have forth : ∀ {a b : String}, a < b → bytes a < bytes b := by
    intro a b h
    rw [bytes_eq, bytes_eq]
    exact flatMap_lt (String.lt_iff.1 h)
  refine ⟨fun h => Decidable.byContradiction fun no => ?_, forth⟩
  rcases Decidable.em (b < a) with above | above
  · exact List.lt_irrefl _ (List.lt_trans h (forth above))
  · have same : a = b := String.le_antisymm (String.not_lt.1 above) (String.not_lt.1 no)
    rw [same] at h
    exact List.lt_irrefl _ h

/-- Texts up to another one are those with bytes up to those of the other. -/
theorem bytes_le_iff {a b : String} : bytes a ≤ bytes b ↔ a ≤ b :=
  not_congr bytes_lt_iff

end Pipewright.Text
