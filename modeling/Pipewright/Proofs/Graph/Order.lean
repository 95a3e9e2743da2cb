import Mathlib.Data.String.Basic
import Pipewright.Graph.Key

/-! # The order of slot keys
Slot keys are ordered by their steps, then their operations, then their slots. The order is strict,
and of two different keys one always comes before the other. -/

namespace Pipewright.SlotKey

/-- Nothing comes before itself among the operations of a step. -/
theorem operationBefore_irrefl (a : Option String) : ¬ operationBefore a a := by
  cases a with
  | none => exact id
  | some a => exact String.lt_irrefl a

/-- The order of operations is transitive. -/
theorem operationBefore_trans {a b c : Option String} (h : operationBefore a b)
    (h' : operationBefore b c) : operationBefore a c := by
  cases a <;> cases b <;> cases c <;> first
    | exact trivial
    | exact absurd h id
    | exact absurd h' id
    | exact String.lt_trans h h'

/-- Of two different operations one comes before the other. -/
theorem operationBefore_total {a b : Option String} (h : ¬ operationBefore a b) (ne : a ≠ b) :
    operationBefore b a := by
  cases a with
  | none =>
    cases b with
    | none => exact absurd rfl ne
    | some b => exact absurd trivial h
  | some a =>
    cases b with
    | none => trivial
    | some b =>
      have ne' : b ≠ a := fun e => ne (congrArg some e.symm)
      exact lt_of_le_of_ne (String.not_lt.1 h) ne'

/-- No key comes before itself. -/
theorem lt_irrefl (a : SlotKey) : ¬ a < a := by
  rintro (h | ⟨-, h | ⟨-, h⟩⟩)
  · exact Nat.lt_irrefl _ h
  · exact operationBefore_irrefl _ h
  · exact String.lt_irrefl _ h

/-- The order of keys is transitive. -/
theorem lt_trans {a b c : SlotKey} (h : a < b) (h' : b < c) : a < c := by
  rcases h with h | ⟨e, h⟩
  · rcases h' with h' | ⟨e', -⟩
    · exact .inl (Nat.lt_trans h h')
    · exact .inl (e' ▸ h)
  · rcases h' with h' | ⟨e', h'⟩
    · exact .inl (e ▸ h')
    · refine .inr ⟨e.trans e', ?_⟩
      rcases h with h | ⟨o, h⟩
      · rcases h' with h' | ⟨o', -⟩
        · exact .inl (operationBefore_trans h h')
        · exact .inl (o' ▸ h)
      · rcases h' with h' | ⟨o', h'⟩
        · exact .inl (o ▸ h')
        · exact .inr ⟨o.trans o', String.lt_trans h h'⟩

/-- Of two different keys one comes before the other. -/
theorem lt_total {a b : SlotKey} (h : ¬ a < b) (ne : a ≠ b) : b < a := by
  have h' : ¬ (a.step < b.step ∨ a.step = b.step ∧
      (operationBefore a.operation b.operation ∨ a.operation = b.operation ∧ a.slot < b.slot)) := h
  push Not at h'
  obtain ⟨steps, rest⟩ := h'
  rcases Nat.lt_or_eq_of_le steps with l | e
  · exact .inl l
  · obtain ⟨operations, slots⟩ := rest e.symm
    refine .inr ⟨e, ?_⟩
    by_cases o : a.operation = b.operation
    · have ne' : b.slot ≠ a.slot := by
        intro s
        apply ne
        cases a
        cases b
        simp_all
      exact .inr ⟨o.symm, lt_of_le_of_ne (slots o) ne'⟩
    · exact .inl (operationBefore_total operations o)

/-- A key that comes before another belongs to no later step. -/
theorem step_le_of_lt {a b : SlotKey} (h : a < b) : a.step ≤ b.step := by
  rcases h with h | ⟨e, -⟩
  · exact Nat.le_of_lt h
  · exact Nat.le_of_eq e

end Pipewright.SlotKey
