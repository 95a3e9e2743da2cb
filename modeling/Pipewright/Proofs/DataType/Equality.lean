import Mathlib
import Pipewright.DataType.Acceptance

/-! # Equality of types
Types are equal up to the floating-point numbers in their annotations, which are compared as
numbers. So a type that mentions the number that is none differs from itself, but equality is still
transitive, and equal types have the same literals. -/

namespace Pipewright

open Float.Model (UnpackedFloat)

/-! ## Numbers -/

/-- Numbers are equal if they are the same number, or are both zero. -/
theorem unpacked_beq_iff {a b : UnpackedFloat} :
    a.beq b = true ↔ (a ≠ .notANumber ∧ a = b) ∨ ∃ s s', a = .zero s ∧ b = .zero s' := by
  unfold UnpackedFloat.beq
  cases a with
  | notANumber => simp [UnpackedFloat.compare]
  | infinity s =>
    cases b with
    | infinity s' => cases s <;> cases s' <;> simp [UnpackedFloat.compare] <;> decide
    | _ => cases s <;> simp [UnpackedFloat.compare]
  | zero s =>
    cases b with
    | infinity s' => cases s' <;> simp [UnpackedFloat.compare]
    | finite s' => cases s' <;> simp [UnpackedFloat.compare]
    | _ => simp [UnpackedFloat.compare]
  | finite s m e =>
    cases b with
    | infinity s' => cases s' <;> simp [UnpackedFloat.compare]
    | zero s' => cases s <;> simp [UnpackedFloat.compare]
    | notANumber => simp [UnpackedFloat.compare]
    | finite s' m' e' =>
      cases s <;> cases s' <;> simp [UnpackedFloat.compare, Ordering.then_eq_eq, and_comm]

/-- Equality of numbers is transitive. -/
theorem float_beq_trans {x y z : Float} (h : (x == y) = true) (h' : (y == z) = true) :
    (x == z) = true := by
  have first := unpacked_beq_iff.1 h
  have second := unpacked_beq_iff.1 h'
  refine unpacked_beq_iff.2 ?_
  rcases first with ⟨number, same⟩ | ⟨s, s', zero, zero'⟩
  · rw [same]
    exact second
  · rcases second with ⟨-, same⟩ | ⟨-, s'', -, zero''⟩
    · exact .inr ⟨s, s', zero, same ▸ zero'⟩
    · exact .inr ⟨s, s'', zero, zero''⟩

/-! ## Literals -/

namespace Value

mutual

/-- Equality of literals is transitive. -/
theorem beq_trans : ∀ {a b c : Value}, beq a b = true → beq b c = true → beq a c = true
  | .int _, .int _, .int _, h, h' => by
    rw [beq, beq_iff_eq] at h h' ⊢
    exact h.trans h'
  | .float _, .float _, .float _, h, h' => float_beq_trans h h'
  | .str _, .str _, .str _, h, h' => by
    rw [beq, beq_iff_eq] at h h' ⊢
    exact h.trans h'
  | .bool _, .bool _, .bool _, h, h' => by
    rw [beq, beq_iff_eq] at h h' ⊢
    exact h.trans h'
  | .list as, .list bs, .list cs, h, h' => beqItems_trans h h'
  | .tuple as, .tuple bs, .tuple cs, h, h' => beqItems_trans h h'
  | .dict as, .dict bs, .dict cs, h, h' => beqPairs_trans h h'

/-- Equality of lists of literals is transitive. -/
theorem beqItems_trans : ∀ {as bs cs : List Value}, beqItems as bs = true →
    beqItems bs cs = true → beqItems as cs = true
  | [], [], _, _, h' => h'
  | _ :: _, _ :: _, _ :: _, h, h' => by
    rw [beqItems, Bool.and_eq_true] at h h' ⊢
    exact ⟨beq_trans h.1 h'.1, beqItems_trans h.2 h'.2⟩

/-- Equality of lists of pairs is transitive. -/
theorem beqPairs_trans : ∀ {as bs cs : List (Value × Value)}, beqPairs as bs = true →
    beqPairs bs cs = true → beqPairs as cs = true
  | [], [], _, _, h' => h'
  | (_, _) :: _, (_, _) :: _, (_, _) :: _, h, h' => by
    rw [beqPairs, Bool.and_eq_true, Bool.and_eq_true] at h h' ⊢
    exact ⟨⟨beq_trans h.1.1 h'.1.1, beq_trans h.1.2 h'.1.2⟩, beqPairs_trans h.2 h'.2⟩

end

end Value

/-! ## Types -/

/-- Equality of annotations is transitive. -/
theorem Annotation.beq_trans : ∀ {a b c : Annotation}, a.beq b = true → b.beq c = true →
    a.beq c = true
  | .minimum _, .minimum _, .minimum _, h, h' => Value.beq_trans h h'
  | .maximum _, .maximum _, .maximum _, h, h' => Value.beq_trans h h'
  | .default _, .default _, .default _, h, h' => Value.beq_trans h h'
  | .decimals _, .decimals _, .decimals _, h, h' => by
    rw [beq, beq_iff_eq] at h h' ⊢
    exact h.trans h'
  | .singleStep _, .singleStep _, .singleStep _, h, h' => Value.beq_trans h h'
  | .withinRange _ _, .withinRange _ _, .withinRange _ _, h, h' => by
    rw [beq, Bool.and_eq_true] at h h' ⊢
    exact ⟨Value.beq_trans h.1 h'.1, Value.beq_trans h.2 h'.2⟩

/-- Equality of lists of annotations is transitive. -/
theorem annotations_beq_trans : ∀ {as bs cs : List Annotation}, (as == bs) = true →
    (bs == cs) = true → (as == cs) = true
  | [], [], _, _, h' => h'
  | _ :: _, _ :: _, _ :: _, h, h' => by
    rw [List.cons_beq_cons, Bool.and_eq_true] at h h' ⊢
    have first := Annotation.beq_trans h.1 h'.1
    exact ⟨first, annotations_beq_trans h.2 h'.2⟩

namespace DataType

mutual

/-- Equality of types is transitive. -/
theorem beq_trans : ∀ {a b c : DataType}, beq a b = true → beq b c = true → beq a c = true
  | .unit, .unit, _, _, h' => h'
  | .int, .int, _, _, h' => h'
  | .float, .float, _, _, h' => h'
  | .str, .str, _, _, h' => h'
  | .bool, .bool, _, _, h' => h'
  | .progress, .progress, _, _, h' => h'
  | .list a, .list b, .list c, h, h' => beq_trans (a := a) (b := b) (c := c) h h'
  | .dict _ _, .dict _ _, .dict _ _, h, h' => by
    rw [beq, Bool.and_eq_true] at h h' ⊢
    exact ⟨beq_trans h.1 h'.1, beq_trans h.2 h'.2⟩
  | .tuple as, .tuple bs, .tuple cs, h, h' => beqItems_trans h h'
  | .node _, .node _, .node _, h, h' => by
    rw [beq, beq_iff_eq] at h h' ⊢
    exact h.trans h'
  | .pack _ _, .pack _ _, .pack _ _, h, h' => by
    rw [beq, Bool.and_eq_true, beq_iff_eq] at h h' ⊢
    exact ⟨h.1.trans h'.1, beqFields_trans h.2 h'.2⟩
  | .annotated _ _, .annotated _ _, .annotated _ _, h, h' => by
    rw [beq, Bool.and_eq_true] at h h' ⊢
    exact ⟨beq_trans h.1 h'.1, annotations_beq_trans h.2 h'.2⟩
  | .external _, .external _, .external _, h, h' => by
    rw [beq, beq_iff_eq] at h h' ⊢
    exact h.trans h'

/-- Equality of lists of types is transitive. -/
theorem beqItems_trans : ∀ {as bs cs : List DataType}, beqItems as bs = true →
    beqItems bs cs = true → beqItems as cs = true
  | [], [], _, _, h' => h'
  | _ :: _, _ :: _, _ :: _, h, h' => by
    rw [beqItems, Bool.and_eq_true] at h h' ⊢
    exact ⟨beq_trans h.1 h'.1, beqItems_trans h.2 h'.2⟩

/-- Equality of lists of fields is transitive. -/
theorem beqFields_trans : ∀ {as bs cs : List (String × DataType)}, beqFields as bs = true →
    beqFields bs cs = true → beqFields as cs = true
  | [], [], _, _, h' => h'
  | (_, _) :: _, (_, _) :: _, (_, _) :: _, h, h' => by
    rw [beqFields, Bool.and_eq_true, Bool.and_eq_true, beq_iff_eq] at h h' ⊢
    exact ⟨⟨h.1.1.trans h'.1.1, beq_trans h.1.2 h'.1.2⟩, beqFields_trans h.2 h'.2⟩

end

/-- Equal types are equal below their outer annotations. -/
theorem beq_unannotated : ∀ {a b : DataType}, beq a b = true →
    beq a.unannotated b.unannotated = true
  | .annotated a as, .annotated b bs, h => by
    simp only [beq, Bool.and_eq_true] at h
    exact beq_unannotated (a := a) (b := b) h.1
  | .unit, .unit, h => h
  | .int, .int, h => h
  | .float, .float, h => h
  | .str, .str, h => h
  | .bool, .bool, h => h
  | .progress, .progress, h => h
  | .list _, .list _, h => h
  | .dict _ _, .dict _ _, h => h
  | .tuple _, .tuple _, h => h
  | .node _, .node _, h => h
  | .pack _ _, .pack _ _, h => h
  | .external _, .external _, h => h

end DataType

end Pipewright
