import Mathlib
import Pipewright.Proofs.Decimal.Nearest

/-! # Shortest decimals read back
The search for a short decimal ends at one in the interval of the magnitude: on the finest grid
that is tried, steps are smaller than the interval. So the decimal is read as the magnitude it was
found for. -/

namespace Pipewright.Decimal

variable {x : Magnitude} {i : Interval} {tie : Tie} {grid : Int} {n : Nat}

/-! ## Grid points -/

/-- The nearest grid point is one in the interval. -/
theorem Interval.holds_of_nearest? (h : i.nearest? tie = some n) : i.holds n = true := by
  unfold nearest? at h
  simp only at h
  split at h
  · next below =>
    split at h
    · next above =>
      split at h
      · cases h
        exact below
      · split at h
        · cases h
          exact above
        · cases tie with
          | away =>
            cases h
            exact above
          | even =>
            simp only [Option.some.injEq] at h
            split at h
            · rw [← h]
              exact below
            · rw [← h]
              exact above
    · cases h
      exact below
  · split at h
    · next above =>
      cases h
      exact above
    · exact absurd h (by simp)

/-- Where the grid point below the value is in the interval, one is found. -/
theorem Interval.exists_nearest? (h : i.holds (i.value / i.step) = true) :
    ∃ n, i.nearest? tie = some n := by
  unfold nearest?
  simp only [if_pos h]
  split
  · split
    · exact ⟨_, rfl⟩
    · split
      · exact ⟨_, rfl⟩
      · cases tie with
        | away => exact ⟨_, rfl⟩
        | even => exact ⟨_, rfl⟩
  · exact ⟨_, rfl⟩

/-- A quarter of the last bit and a step of the grid, as powers. -/
theorem interval_ratio (x : Magnitude) (grid : Int) :
    ((x.interval grid).step : ℚ) * 2 ^ (x.exponent - 2) =
      (Nat.pow 2 (x.exponent - 2).toNat * Nat.pow 10 (-grid).toNat : Nat) * 10 ^ grid := by
  have split : ∀ (b : ℚ) (e : Int), b ≠ 0 → b ^ e = b ^ e.toNat / b ^ (-e).toNat := by
    intro b e some
    rw [← zpow_natCast, ← zpow_natCast, ← zpow_sub₀ some]
    congr 1
    omega
  have step : (x.interval grid).step =
      10 ^ grid.toNat * 2 ^ (-(x.exponent - 2)).toNat := rfl
  rw [step, split 2 _ two_ne_zero, split 10 _ (by norm_num)]
  simp only [Nat.pow_eq]
  push_cast
  field_simp

/-- A grid point in the interval, as a multiple of a step, is a number in the interval. -/
theorem Magnitude.reaches_of_holds (positive : 0 < x.mantissa)
    (h : (x.interval grid).holds n = true) : x.Reaches (valueOf n grid) := by
  have ratio := interval_ratio x grid
  generalize scaled : Nat.pow 2 (x.exponent - 2).toNat * Nat.pow 10 (-grid).toNat = scale at ratio
  have some : 0 < scale := by
    rw [← scaled]
    exact Nat.mul_pos (Nat.pow_pos (by decide)) (Nat.pow_pos (by decide))
  have some' : (0 : ℚ) < scale := by exact_mod_cast some
  have power : (0 : ℚ) < 2 ^ (x.exponent - 2) := by positivity
  have quarter : (2 : ℚ) ^ x.exponent = 4 * 2 ^ (x.exponent - 2) := by
    rw [zpow_sub₀ two_ne_zero]
    norm_num
    ring
  -- both sides of the comparison are scaled to whole numbers; the scale is divided out again
  have value : valueOf n grid / 2 ^ x.exponent = n * (x.interval grid).step / (4 * scale) := by
    rw [quarter, div_eq_div_iff (by positivity) (by positivity), valueOf]
    linear_combination (-4 * n : ℚ) * ratio
  have margin : 4 * x.margin = ((if x.narrowBelow then 1 else 2 : Nat) : ℚ) := by
    unfold margin
    split <;> norm_num
  have few : (if x.narrowBelow then 1 else 2 : Nat) ≤ 4 * x.mantissa := by
    split <;> omega
  have low : (((x.interval grid).low : Nat) : ℚ) = (x.mantissa - x.margin) * (4 * scale) := by
    have : (x.interval grid).low =
        (4 * x.mantissa - (if x.narrowBelow then 1 else 2)) * scale := by rw [← scaled]; rfl
    rw [this, Nat.cast_mul, Nat.cast_sub few, ← margin]
    push_cast
    ring
  have high : (((x.interval grid).high : Nat) : ℚ) = (x.mantissa + 1 / 2) * (4 * scale) := by
    have : (x.interval grid).high = (4 * x.mantissa + 2) * scale := by rw [← scaled]; rfl
    rw [this]
    push_cast
    ring
  have closed : (x.interval grid).closed = decide (x.mantissa % 2 = 0) := rfl
  have positive' : (0 : ℚ) < 4 * scale := by positivity
  unfold Interval.holds at h
  rw [closed] at h
  -- the ends of the interval belong to it if the last bit is even
  by_cases even : x.mantissa % 2 = 0
  · rw [if_pos (decide_eq_true even), Bool.and_eq_true, decide_eq_true_iff,
      decide_eq_true_iff] at h
    have above : ((x.interval grid).low : ℚ) ≤ n * (x.interval grid).step := by exact_mod_cast h.1
    have below : (n * (x.interval grid).step : ℚ) ≤ (x.interval grid).high := by
      exact_mod_cast h.2
    rw [low] at above
    rw [high] at below
    refine ⟨?_, ?_, fun _ => even⟩
    · rwa [value, le_div_iff₀ positive']
    · rwa [value, div_le_iff₀ positive']
  · rw [if_neg (by rw [decide_eq_true_iff]; exact even), Bool.and_eq_true, decide_eq_true_iff,
      decide_eq_true_iff] at h
    have above : ((x.interval grid).low : ℚ) < n * (x.interval grid).step := by exact_mod_cast h.1
    have below : (n * (x.interval grid).step : ℚ) < (x.interval grid).high := by
      exact_mod_cast h.2
    rw [low, ← lt_div_iff₀ positive', ← value] at above
    rw [high, ← div_lt_iff₀ positive', ← value] at below
    refine ⟨above.le, below.le, ?_⟩
    rintro (down | up)
    · exact absurd down above.ne'
    · exact absurd up below.ne

/-! ## The search -/

/-- On a grid whose steps are at most a quarter of the last bit, the point below the value is in the
interval. -/
theorem Magnitude.holds_below (positive : 0 < x.mantissa)
    (fine : (x.interval grid).step ≤
      Nat.pow 2 (x.exponent - 2).toNat * Nat.pow 10 (-grid).toNat) :
    (x.interval grid).holds ((x.interval grid).value / (x.interval grid).step) = true := by
  generalize scaled : Nat.pow 2 (x.exponent - 2).toNat * Nat.pow 10 (-grid).toNat = scale at fine
  have some : 0 < (x.interval grid).step :=
    Nat.mul_pos (Nat.pow_pos (by decide)) (Nat.pow_pos (by decide))
  have value : (x.interval grid).value = 4 * x.mantissa * scale := by rw [← scaled]; rfl
  have high : (x.interval grid).high = (4 * x.mantissa + 2) * scale := by rw [← scaled]; rfl
  have low : (x.interval grid).low ≤ (4 * x.mantissa - 1) * scale := by
    have : (x.interval grid).low =
        (4 * x.mantissa - (if x.narrowBelow then 1 else 2)) * scale := by rw [← scaled]; rfl
    rw [this]
    exact Nat.mul_le_mul_right _ (by split <;> omega)
  -- the interval reaches a scale below the value, and the point below it is within a step
  have wide : (4 * x.mantissa - 1) * scale + scale = (x.interval grid).value := by
    rw [value, ← Nat.succ_mul]
    congr 1
    omega
  have wide' : (x.interval grid).value + 2 * scale = (x.interval grid).high := by
    rw [value, high]
    ring
  have split := Nat.div_add_mod (x.interval grid).value (x.interval grid).step
  have small := Nat.mod_lt (x.interval grid).value some
  rw [Nat.mul_comm] at split
  have above : (x.interval grid).low <
      (x.interval grid).value / (x.interval grid).step * (x.interval grid).step := by omega
  have below : (x.interval grid).value / (x.interval grid).step * (x.interval grid).step <
      (x.interval grid).high := by omega
  unfold Interval.holds
  split
  · rw [Bool.and_eq_true, decide_eq_true_iff, decide_eq_true_iff]
    exact ⟨above.le, below.le⟩
  · rw [Bool.and_eq_true, decide_eq_true_iff, decide_eq_true_iff]
    exact ⟨above, below⟩

/-- A search that reaches a fine enough grid finds a grid point in the interval. -/
theorem Magnitude.holds_searchFrom (tries : Nat) (grid : Int)
    (h : ∃ k : Nat, k < tries ∧ (x.interval (grid - k)).holds
      ((x.interval (grid - k)).value / (x.interval (grid - k)).step) = true) :
    (x.interval (x.searchFrom tie tries grid).exponent).holds
      (x.searchFrom tie tries grid).coefficient = true := by
  induction tries generalizing grid with
  | zero =>
    obtain ⟨k, less, -⟩ := h
    omega
  | succ tries ih =>
    unfold searchFrom
    cases found : (x.interval grid).nearest? tie with
    | some n => exact Interval.holds_of_nearest? found
    | none =>
      obtain ⟨k, less, there⟩ := h
      cases k with
      | zero =>
        rw [Nat.cast_zero, Int.sub_zero] at there
        obtain ⟨n, some⟩ := @Interval.exists_nearest? _ tie there
        rw [found] at some
        cases some
      | succ k =>
        refine ih (grid - 1) ⟨k, by omega, ?_⟩
        rwa [show grid - 1 - (k : Int) = grid - ((k + 1 : Nat) : Int) by omega]

/-- Whether the steps of the last grid that is tried are at most a quarter of the last bit, for
magnitudes with all of their bits below a power of two. -/
def isFine (power : Int) : Bool :=
  Nat.pow 10 (power * 30103 / 100000 - 19).toNat * Nat.pow 2 (55 - power).toNat ≤
    Nat.pow 2 (power - 55).toNat * Nat.pow 10 (19 - power * 30103 / 100000).toNat

/-- The last grid that is tried is fine enough for every power of two in the range. -/
theorem isFine_range : (List.range 2098).all (fun n => isFine ((n : Int) - 1073)) = true := by
  decide +kernel

/-- The shortest decimal of a magnitude is a number in its interval. -/
theorem Magnitude.reaches_shortest (tie : Tie) (canonical : x.Canonical)
    (most : x.exponent ≤ 971) (positive : 0 < x.mantissa) :
    x.Reaches (valueOf (x.shortest tie).coefficient (x.shortest tie).exponent) := by
  have least := canonical.least
  have short : x.mantissa.log2 ≤ 52 :=
    Nat.le_of_lt_succ ((Nat.log2_lt positive.ne').2 canonical.few)
  generalize above : (x.mantissa.log2 : Int) + 1 + x.exponent = power
  -- the powers of two of the format are finitely many, and were all looked at
  have fine : isFine power = true := by
    have := List.all_eq_true.1 isFine_range (power + 1073).toNat (by
      rw [List.mem_range]
      omega)
    rwa [show ((power + 1073).toNat : Int) - 1073 = power by omega] at this
  unfold isFine at fine
  rw [decide_eq_true_iff] at fine
  generalize last : power * 30103 / 100000 - 19 = grid at fine
  rw [show (19 : Int) - power * 30103 / 100000 = -grid by omega] at fine
  have step : (x.interval grid).step ≤
      Nat.pow 2 (x.exponent - 2).toNat * Nat.pow 10 (-grid).toNat := by
    calc (x.interval grid).step
        = Nat.pow 10 grid.toNat * Nat.pow 2 (-(x.exponent - 2)).toNat := rfl
      _ ≤ Nat.pow 10 grid.toNat * Nat.pow 2 (55 - power).toNat :=
          Nat.mul_le_mul_left _ (Nat.pow_le_pow_right (by decide) (by omega))
      _ ≤ Nat.pow 2 (power - 55).toNat * Nat.pow 10 (-grid).toNat := fine
      _ ≤ Nat.pow 2 (x.exponent - 2).toNat * Nat.pow 10 (-grid).toNat :=
          Nat.mul_le_mul_right _ (Nat.pow_le_pow_right (by decide) (by omega))
  -- that grid is the last one that is tried, so a point is found there at the latest
  have top : x.topGrid - (20 : Nat) = grid := by
    unfold topGrid
    rw [above]
    omega
  unfold shortest
  rw [if_neg positive.ne']
  refine reaches_of_holds positive (holds_searchFrom 21 x.topGrid ⟨20, by decide, ?_⟩)
  rw [top]
  exact holds_below positive step

/-- Any way of writing the value of the shortest decimal of a magnitude is read as the positive
number of that magnitude. -/
theorem Magnitude.nearestFloat_shortest (tie : Tie) (canonical : x.Canonical) (most : x.exponent ≤ 971)
    (positive : 0 < x.mantissa) {m : Nat} {e : Int}
    (same : valueOf m e = valueOf (x.shortest tie).coefficient (x.shortest tie).exponent) :
    nearestFloat false m e =
      ⟨Float.Model.pack (.finite .positive x.mantissa x.exponent positive)⟩ := by
  have reaches := x.reaches_shortest tie canonical most positive
  rw [← same] at reaches
  refine nearestFloat_eq reaches canonical most positive (Nat.pos_of_ne_zero fun zero => ?_)
  have le := reaches.le canonical positive
  rw [zero, valueOf, Nat.cast_zero, zero_mul] at le
  exact absurd le (not_le.2 (by positivity))

/-- Any way of writing the value of the shortest decimal of a finite number is read as the number
without its sign. -/
theorem Finite.nearestFloat_shortest {x : Float} (h : Finite x) (tie : Tie) {m : Nat} {e : Int}
    (same : valueOf m e = valueOf ((Magnitude.ofFloat x).shortest tie).coefficient
      ((Magnitude.ofFloat x).shortest tie).exponent) :
    nearestFloat false m e = if isNegative x then -x else x := by
  obtain ⟨unpacks, canonical, most⟩ := h.unpacks
  generalize parts : x.toModel.unpack = u at unpacks
  have whole : x = ⟨Float.Model.pack u⟩ := parts ▸ eq_pack x
  have opposite : -x = ⟨Float.Model.pack u.neg⟩ := by
    rw [← parts]
    rfl
  cases unpacks with
  -- a zero is written with a coefficient of zero, whatever its sign
  | zero none =>
    have zero : m = 0 := by
      unfold Magnitude.shortest at same
      rw [if_pos none, valueOf, valueOf, Nat.cast_zero, zero_mul, mul_eq_zero] at same
      exact_mod_cast same.resolve_right (by positivity)
    have read : nearestFloat false m e = ⟨Float.Model.pack (.zero .positive)⟩ := by
      unfold nearestFloat
      simp only [zero, decide_true, Bool.true_or, if_true, Bool.false_eq_true, if_false]
      rfl
    unfold signOf at whole opposite
    split
    · next negative =>
      rw [if_pos negative] at opposite
      exact read.trans opposite.symm
    · next positive =>
      rw [if_neg positive] at whole
      exact read.trans whole.symm
  | finite some =>
    have read := Magnitude.nearestFloat_shortest tie canonical most some same
    unfold signOf at whole opposite
    split
    · next negative =>
      rw [if_pos negative] at opposite
      exact read.trans opposite.symm
    · next positive =>
      rw [if_neg positive] at whole
      exact read.trans whole.symm

end Pipewright.Decimal
