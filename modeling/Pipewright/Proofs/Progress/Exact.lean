import Mathlib.Algebra.Order.Field.Rat
import Mathlib.Data.Rat.Cast.Order
import Pipewright.Progress

/-! # Progress in exact arithmetic
What reports come to when no number is rounded: each piece takes up an equal part of the whole, and
the progress within it is spread over that part. -/

namespace Pipewright

/-- The number that a finite floating-point number is. -/
def Decimal.exactValue (x : Float) : ℚ :=
  (if isNegative x then -1 else 1) * (Magnitude.ofFloat x).mantissa *
    2 ^ (Magnitude.ofFloat x).exponent

/-- Zero is zero. -/
@[simp] theorem Decimal.exactValue_zero : exactValue 0 = 0 := by
  have none : (Magnitude.ofFloat 0).mantissa = 0 := by decide
  rw [exactValue, none, Nat.cast_zero, mul_zero, zero_mul]

example : Decimal.exactValue (-0.75) = -3 / 4 := by decide +kernel

namespace Progress

variable {low middle high : ℚ} {reports reports' : List (Report ℚ)} {pieces : Nat}

/-- The overall progress is spread evenly over the pieces. -/
theorem overall_eq (some' : 0 < pieces) (fraction : ℚ) (piece : Int) :
    overall fraction piece pieces = (piece + fraction) / pieces := by
  have whole : max (pieces : Int) 1 = pieces := by omega
  unfold overall
  rw [whole, Int.cast_natCast, ← mul_add, one_div, inv_mul_eq_div]

/-- The report of a fraction of one of the pieces. -/
theorem Report.of_eq (some' : 0 < pieces) (pieceName : String) (fraction : ℚ) (n : Nat) :
    Report.of pieceName fraction n pieces = ⟨(n + fraction) / pieces, pieceName, n, pieces⟩ := by
  rw [Report.of, overall_eq some', Int.cast_natCast]

/-- The totals of reports do not decrease, and lie between two numbers. -/
structure Ascends (low high : ℚ) (reports : List (Report ℚ)) : Prop where
  /-- They lie between the two. -/
  within : ∀ ρ ∈ reports, low ≤ ρ.total ∧ ρ.total ≤ high
  /-- They do not decrease. -/
  ascending : reports.Pairwise fun ρ ρ' => ρ.total ≤ ρ'.total

namespace Ascends

/-- No reports. -/
theorem nil : Ascends low high [] := ⟨by simp, .nil⟩

/-- Reports with wider bounds. -/
theorem mono {low' high' : ℚ} (h : Ascends low high reports) (le : low' ≤ low) (le' : high ≤ high') :
    Ascends low' high' reports :=
  ⟨fun ρ m => ⟨le.trans (h.within ρ m).1, (h.within ρ m).2.trans le'⟩, h.ascending⟩

/-- A report of the lower bound in front of others. -/
theorem cons {ρ : Report ℚ} (start : ρ.total = low) (h : Ascends low high reports)
    (le : low ≤ high) : Ascends low high (ρ :: reports) := by
  refine ⟨fun ρ' m => ?_, List.pairwise_cons.2 ⟨fun ρ' m => ?_, h.ascending⟩⟩
  · rcases List.mem_cons.1 m with rfl | m
    · exact ⟨start.ge, start.le.trans le⟩
    · exact h.within ρ' m
  · exact start.le.trans (h.within ρ' m).1

/-- Reports in front of others that are not below them. -/
theorem append (h : Ascends low middle reports) (h' : Ascends middle high reports')
    (le : low ≤ middle) (le' : middle ≤ high) : Ascends low high (reports ++ reports') := by
  refine ⟨fun ρ m => ?_, List.pairwise_append.2 ⟨h.ascending, h'.ascending, ?_⟩⟩
  · rcases List.mem_append.1 m with m | m
    · exact (h.mono (le_refl _) le').within ρ m
    · exact (h'.mono le (le_refl _)).within ρ m
  · exact fun ρ m ρ' m' => (h.within ρ m).2.trans (h'.within ρ' m').1

/-- What is reported of one of the pieces stays in the part of the whole that is the piece's. -/
theorem piece (h : Ascends 0 1 reports) (some' : 0 < pieces) (n : Nat) :
    Ascends (n / pieces) ((n + 1) / pieces) (reports.map fun ρ =>
      ⟨(n + ρ.total) / pieces, ρ.pieceName, n, pieces⟩) := by
  have spread : ∀ {x y : ℚ}, x ≤ y → (n + x) / pieces ≤ (n + y) / pieces := fun le =>
    (div_le_div_iff_of_pos_right (by exact_mod_cast some')).2 (add_le_add_right le _)
  refine ⟨fun ρ' m => ?_, List.pairwise_map.2 (h.ascending.imp fun le => spread le)⟩
  obtain ⟨ρ, there, rfl⟩ := List.mem_map.1 m
  obtain ⟨above, below⟩ := h.within ρ there
  have low := spread above
  rw [add_zero] at low
  exact ⟨low, spread below⟩

end Ascends

end Progress

end Pipewright
