import Mathlib.Tactic.Linarith
import Pipewright.Proofs.Progress.Deliveries
import Pipewright.Proofs.Progress.Exact

/-! # Nested pieces
When work is done in pieces, and the pieces in pieces again, the overall progress of each piece is
the progress of one piece of the work above it. In exact arithmetic it stays within the part of that
work that the piece takes up, and of two reports the one that is further at the innermost piece is
further everywhere. -/

namespace Pipewright.Progress

/-! ## One piece -/

section Overall

variable {fraction : ℚ} {piece pieces : Int}

/-- There is at least one piece. -/
theorem pieceCount_pos (pieces : Int) : (0 : ℚ) < (max pieces 1 : Int) := by
  have : (0 : Int) < max pieces 1 := by omega
  exact_mod_cast this

/-- The progress of a piece is spread over its part of the whole. -/
theorem overall_eq_div (fraction : ℚ) (piece pieces : Int) :
    overall fraction piece pieces = (piece + fraction) / (max pieces 1 : Int) := by
  unfold overall
  rw [← mul_add, one_div, inv_mul_eq_div]

/-- The further a piece is, the further is the whole. -/
theorem strictMono_overall (piece pieces : Int) :
    StrictMono fun fraction : ℚ => overall fraction piece pieces := by
  intro fraction fraction' less
  simp only [overall_eq_div]
  exact (div_lt_div_iff_of_pos_right (pieceCount_pos pieces)).2 (by linarith)

/-- What is done of a piece lies in its part of the whole. -/
theorem overall_mem_part (low : 0 ≤ fraction) (high : fraction ≤ 1) :
    (piece : ℚ) / (max pieces 1 : Int) ≤ overall fraction piece pieces ∧
      overall fraction piece pieces ≤ (piece + 1) / (max pieces 1 : Int) := by
  rw [overall_eq_div]
  exact ⟨(div_le_div_iff_of_pos_right (pieceCount_pos pieces)).2 (by linarith),
    (div_le_div_iff_of_pos_right (pieceCount_pos pieces)).2 (by linarith)⟩

/-- What is done of one of the pieces is no less than nothing and no more than the whole. -/
theorem overall_mem_whole (first : 0 ≤ piece) (last : piece < max pieces 1) (low : 0 ≤ fraction)
    (high : fraction ≤ 1) : 0 ≤ overall fraction piece pieces ∧
      overall fraction piece pieces ≤ 1 := by
  have first' : (0 : ℚ) ≤ piece := by exact_mod_cast first
  have last' : (piece : ℚ) + 1 ≤ (max pieces 1 : Int) := by exact_mod_cast last
  rw [overall_eq_div]
  refine ⟨div_nonneg (by linarith) (pieceCount_pos pieces).le, ?_⟩
  rw [div_le_one₀ (pieceCount_pos pieces)]
  linarith

end Overall

/-! ## Pieces of pieces -/

namespace Callback

variable {c d : Callback} {t fraction : ℚ} {pieceName : String} {piece pieces : Int}

/-- The pieces of a chain are among those that their parents' work has. -/
def PiecesFit (c : Callback) : Prop :=
  ∀ cell parent piece pieces, .sub cell parent piece pieces ∈ c.chain →
    0 ≤ piece ∧ piece < max pieces 1

/-- The overall progress of one callback when another one, that passes its reports on, has come to
some overall progress. -/
def totalAt (d : Callback) : Callback → ℚ → ℚ
  | .plain _ _, t => t
  | .sub cell parent piece pieces, t =>
    if d = .sub cell parent piece pieces then t else d.totalAt parent (overall t piece pieces)

/-- A callback has come to what it has come to. -/
@[simp] theorem totalAt_self : c.totalAt c t = t := by
  cases c <;> simp [totalAt]

/-- What reaches a callback through one for a piece of its work is the progress of that piece. -/
theorem totalAt_parent {cell : Nat} (h : Reaches (.sub cell d piece pieces) c) :
    d.totalAt c t = overall ((Callback.sub cell d piece pieces).totalAt c t) piece pieces := by
  induction h generalizing t with
  | refl =>
    rw [totalAt_self, totalAt, if_neg Reaches.refl.ne_sub, totalAt_self]
  | sub passed ih =>
    rw [totalAt, if_neg passed.of_sub.ne_sub, totalAt, if_neg passed.ne_sub, ih]

/-- The further the innermost piece is, the further is all the work above it. -/
theorem strictMono_totalAt (d c : Callback) : StrictMono (d.totalAt c) := by
  induction c with
  | plain cell outlet => exact strictMono_id
  | sub cell parent piece pieces ih =>
    intro t t' less
    by_cases same : d = .sub cell parent piece pieces
    · rw [totalAt, totalAt, if_pos same, if_pos same]
      exact less
    · rw [totalAt, totalAt, if_neg same, if_neg same]
      exact ih (strictMono_overall piece pieces less)

/-- If the pieces fit, no work is less than nothing or more than the whole. -/
theorem totalAt_mem_whole (d : Callback) (fit : c.PiecesFit) (low : 0 ≤ t) (high : t ≤ 1) :
    0 ≤ d.totalAt c t ∧ d.totalAt c t ≤ 1 := by
  induction c generalizing t with
  | plain cell outlet => exact ⟨low, high⟩
  | sub cell parent piece pieces ih =>
    by_cases same : d = .sub cell parent piece pieces
    · rw [totalAt, if_pos same]
      exact ⟨low, high⟩
    · have own := fit cell parent piece pieces List.mem_cons_self
      have whole := overall_mem_whole own.1 own.2 low high
      rw [totalAt, if_neg same]
      exact ih (fun cell' parent' piece' pieces' m =>
        fit cell' parent' piece' pieces' (List.mem_cons_of_mem _ m)) whole.1 whole.2

/-- What a callback hears has the name of the innermost piece, and the overall progress to which the
callback has come. -/
theorem eq_of_hears {ρ : Report ℚ} (h : d.hears c pieceName fraction piece pieces = some ρ) :
    ρ.pieceName = pieceName ∧ ρ.total = d.totalAt c (overall fraction piece pieces) := by
  induction c generalizing fraction piece pieces with
  | plain cell outlet =>
    unfold hears at h
    split at h
    · cases h
      exact ⟨rfl, rfl⟩
    · cases h
  | sub cell parent ofParent pieceCount ih =>
    unfold hears at h
    split at h
    · next same =>
      cases h
      rw [totalAt, if_pos same]
      exact ⟨rfl, rfl⟩
    · next other =>
      rw [totalAt, if_neg other]
      exact ih h

end Callback

/-! ## Reports of nested pieces -/

namespace Board

/-- What a report to a callback comes to, at an overall progress of its own: how the board differs
afterwards from before, for some callbacks that were made. -/
structure Spreads (made : List Callback) (c : Callback) (pieceName : String) (t : ℚ)
    (before after : Board ℚ) : Prop where
  /-- Each callback of the chain is there once. -/
  once : c.chain.Nodup
  /-- The report is delivered to the callbacks of the chain and no others, to each one time, as a
  report with the name of the innermost piece and with the overall progress of the callback's work.
  That is then the latest report of the callback and of everyone who shares its cell, and waits
  behind the others in its outlet. -/
  delivered : ∃ news : List (Callback × Report ℚ),
    after = before.deliverAll news ∧ news.map Prod.fst = c.chain ∧
    ∀ d ρ, (d, ρ) ∈ news → ρ.pieceName = pieceName ∧ ρ.total = d.totalAt c t ∧
      (∀ copy : Callback, copy.cell = d.cell → after.latest copy = ρ) ∧
      after.attended? d = (before.attended? d).map fun found =>
        (found.1, { found.2 with waiting := found.2.waiting ++ [ρ] })
  /-- The overall progress of work of which a piece is done in the chain lies in the part of this
  piece. -/
  within : ∀ (cell : Nat) (d : Callback) (piece pieces : Int), .sub cell d piece pieces ∈ c.chain →
    (piece : ℚ) / (max pieces 1 : Int) ≤ d.totalAt c t ∧
      d.totalAt c t ≤ (piece + 1) / (max pieces 1 : Int)
  /-- The overall progress grows with that of the innermost piece. -/
  increasing : ∀ d ∈ c.chain, StrictMono (d.totalAt c)
  /-- Nothing changes for callbacks outside of the chain. -/
  others : ∀ d ∈ made, d ∉ c.chain →
    after.latest d = before.latest d ∧ after.attended? d = before.attended? d

/-- A report that is made at some piece of a piece of a piece is delivered once to each callback on
the way up, stays within the pieces, and keeps the order of reports at each of them. -/
theorem report_spreads {b : Board ℚ} {made : List Callback} {c : Callback} {fraction : ℚ}
    {piece pieces : Int} (arises : Arises b made) (m : c ∈ made) (fit : c.PiecesFit)
    (pieceName : String) (low : 0 ≤ overall fraction piece pieces)
    (high : overall fraction piece pieces ≤ 1) :
    Spreads made c pieceName (overall fraction piece pieces) b
      (b.report c pieceName fraction piece pieces) := by
  have holds := arises.holds
  refine ⟨c.nodup_chain, ?_, fun cell d ofParent pieceCount there => ?_,
    fun d _ => d.strictMono_totalAt c, fun d m' other => ?_⟩
  · refine ⟨c.deliveries pieceName fraction piece pieces, report_eq_deliverAll _ _ _ _ _ _,
      c.map_fst_deliveries _ _ _ _, fun d ρ delivered => ?_⟩
    have heard := Callback.eq_of_hears (Callback.hears_of_mem_deliveries delivered)
    have seen := holds.seen_report m delivered
    refine ⟨heard.1, heard.2, fun copy same => ?_, congrArg Prod.snd seen⟩
    have noted := congrArg Prod.fst seen
    simp only [Board.seen, latest] at noted ⊢
    rw [same, noted]
  · have below := Callback.totalAt_mem_whole (.sub cell d ofParent pieceCount) fit low high
    rw [Callback.totalAt_parent (Callback.mem_chain_iff.1 there)]
    exact overall_mem_part below.1 below.2
  · have seen := holds.seen_report_of_not_mem m m' other pieceName fraction piece pieces
    exact ⟨congrArg Prod.fst seen, congrArg Prod.snd seen⟩

/-- A callback for the only piece of the third of four pieces of the work of one with an outlet. -/
def innermost : Callback := .sub 2 (.sub 1 (.plain 0 (some 0)) 2 4) 0 0

/-- A report that the innermost piece is half done says that five eighths of the whole are. -/
theorem report_spreads_innermost :
    let top := Callback.plain 0 (some 0)
    let b : Board ℚ := ((Board.empty.addOutlet.2.addSub top 2 4).2.addSub (.sub 1 top 2 4) 0 0).2
    Arises b [innermost, .sub 1 top 2 4, top] ∧ innermost.PiecesFit ∧
      0 ≤ overall (0 : ℚ) 1 2 ∧ overall (0 : ℚ) 1 2 ≤ 1 ∧
      Spreads [innermost, .sub 1 top 2 4, top] innermost "inner" (overall 0 1 2) b
        (b.report innermost "inner" 0 1 2) ∧
      top.totalAt innermost (overall 0 1 2) = 5 / 8 := by
  intro top b
  have arises : Arises b [innermost, .sub 1 top 2 4, top] :=
    .sub 0 0 (.sub 2 4 (.outlet .empty) List.mem_cons_self) List.mem_cons_self
  have fit : innermost.PiecesFit := by
    intro cell parent piece pieces m
    simp only [innermost, Callback.chain, List.mem_cons, List.not_mem_nil, or_false,
      Callback.sub.injEq, reduceCtorEq] at m
    rcases m with ⟨-, -, rfl, rfl⟩ | ⟨-, -, rfl, rfl⟩
    · decide
    · decide
  have low : 0 ≤ overall (0 : ℚ) 1 2 := by decide +kernel
  have high : overall (0 : ℚ) 1 2 ≤ 1 := by decide +kernel
  exact ⟨arises, fit, low, high, report_spreads arises List.mem_cons_self fit "inner" low high,
    by decide +kernel⟩

end Board

end Pipewright.Progress
