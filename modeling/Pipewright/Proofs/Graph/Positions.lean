import Mathlib.Data.List.Perm.Basic
import Mathlib.Data.List.Sort
import Pipewright.Proofs.Graph.Steps

/-! # Positions of parameters
What the positions of the parameters of a step have to do with their order. Positions that count up
from zero always decide it. What becomes of other ones is up to the first parameter in key order: if
it has a position, they are refused, and if it has none, no position counts. -/

namespace Pipewright.PipelineGraph

variable {g : PipelineGraph} {step : Nat} {key first : SlotKey} {keys rest : List SlotKey}

/-- The parameters and the return values of the step that an index means, in key order; none for an
index before the first step. -/
def splitAt (g : PipelineGraph) (index : Int) : List SlotKey × List SlotKey :=
  (g.resolveStep? index).elim ([], []) fun step => splitReturns (g.keysAt step)

/-- The positions of keys are `0`, `1`, … in some order, each once, and none is missing. -/
def CountsUp (g : PipelineGraph) (keys : List SlotKey) : Prop :=
  (keys.map g.position?).Perm ((List.range keys.length).map some)

instance : Decidable (g.CountsUp keys) := inferInstanceAs (Decidable (List.Perm _ _))

/-- Keys are in the order of their positions, which are `0`, `1`, … -/
def InPositionOrder (g : PipelineGraph) (keys : List SlotKey) : Prop :=
  keys.map g.position? = (List.range keys.length).map some

/-- The first of some keys has a position. -/
def StartsPlaced (g : PipelineGraph) (keys : List SlotKey) : Prop :=
  ∃ key ∈ keys.head?, (g.position? key).isSome = true

/-! ## Ranks -/

/-- The order of ranks, as keys are sorted by. -/
def ranksBefore (g : PipelineGraph) (a b : SlotKey) : Bool := g.positionRank a ≤ g.positionRank b

/-- A key with a position has it for its rank. -/
theorem position?_eq_positionRank (h : (g.position? key).isSome = true) :
    g.position? key = some (g.positionRank key) := by
  obtain ⟨n, e⟩ := Option.isSome_iff_exists.1 h
  rw [positionRank, e, Option.getD_some]

/-- Sorting puts ranks in ascending order. -/
theorem ascending_mergeSort (g : PipelineGraph) (keys : List SlotKey) :
    ((keys.mergeSort g.ranksBefore).map g.positionRank).Pairwise (· ≤ ·) := by
  have trans : ∀ a b c, g.ranksBefore a b = true → g.ranksBefore b c = true →
      g.ranksBefore a c = true := fun a b c ab bc =>
    decide_eq_true (Nat.le_trans (of_decide_eq_true ab) (of_decide_eq_true bc))
  have total : ∀ a b, (g.ranksBefore a b || g.ranksBefore b a) = true := by
    intro a b
    unfold ranksBefore
    rw [Bool.or_eq_true, decide_eq_true_eq, decide_eq_true_eq]
    exact Nat.le_total _ _
  have sorted := List.pairwise_mergeSort trans total keys
  rw [List.pairwise_map]
  exact sorted.imp of_decide_eq_true

/-! ## Positions that count up -/

namespace CountsUp

/-- No position is missing among those that count up. -/
theorem isSome (h : g.CountsUp keys) (m : key ∈ keys) : (g.position? key).isSome = true := by
  obtain ⟨n, -, e⟩ := List.mem_map.1 (h.mem_iff.1 (List.mem_map_of_mem m))
  rw [← e, Option.isSome_some]

/-- Positions that count up are the ranks of their keys. -/
theorem map_position? (h : g.CountsUp keys) :
    keys.map g.position? = (keys.map g.positionRank).map some := by
  rw [List.map_map]
  exact List.map_congr_left fun key m => position?_eq_positionRank (h.isSome m)

/-- The first key has a position, as all have. -/
theorem startsPlaced (h : g.CountsUp (first :: rest)) : g.StartsPlaced (first :: rest) :=
  ⟨first, rfl, h.isSome List.mem_cons_self⟩

/-- Positions count up in any order of their keys. -/
theorem of_perm {keys' : List SlotKey} (h : g.CountsUp keys) (same : keys'.Perm keys) :
    g.CountsUp keys' := by
  unfold CountsUp at h ⊢
  rw [same.length_eq]
  exact (same.map _).trans h

/-- Keys whose positions count up are sorted into the order of their positions. -/
theorem inPositionOrder_mergeSort (h : g.CountsUp keys) :
    g.InPositionOrder (keys.mergeSort g.ranksBefore) := by
  have h' := h.of_perm (List.mergeSort_perm keys g.ranksBefore)
  have numbers : ((keys.mergeSort g.ranksBefore).map g.positionRank).Perm
      (List.range (keys.mergeSort g.ranksBefore).length) := by
    have positions := h'
    unfold CountsUp at positions
    rw [h'.map_position?] at positions
    exact (List.map_perm_map_iff (Option.some_injective Nat)).1 positions
  -- both lists ascend and have the same members
  have ranks := numbers.eq_of_pairwise' (ascending_mergeSort g keys) List.pairwise_le_range
  unfold InPositionOrder
  rw [h'.map_position?, ranks]

end CountsUp

/-- Keys in the order of their positions have positions that count up. -/
theorem InPositionOrder.countsUp (h : g.InPositionOrder keys) : g.CountsUp keys :=
  .of_eq h

/-! ## Putting keys in order -/

/-- Keys of which the first has a position are sorted, and refused if their positions do not count
up. -/
theorem orderByPosition_of_startsPlaced (placed : g.StartsPlaced keys) :
    g.orderByPosition step keys =
      if g.CountsUp keys then .ok (keys.mergeSort g.ranksBefore)
      else .error ⟨step, (keys.mergeSort g.ranksBefore).map g.position?⟩ := by
  obtain ⟨first, head, some'⟩ := placed
  cases keys with
  | nil => cases head
  | cons first' rest =>
    cases head
    have inOrder : g.CountsUp (first :: rest) ↔
        ((first :: rest).mergeSort g.ranksBefore).map g.position? = (List.range
          (((first :: rest).mergeSort g.ranksBefore).map g.position?).length).map some := by
      rw [List.length_map]
      exact ⟨CountsUp.inPositionOrder_mergeSort, fun h =>
        (InPositionOrder.countsUp h).of_perm (List.mergeSort_perm _ _).symm⟩
    unfold orderByPosition
    simp only [some', if_true]
    exact if_congr inOrder.symm rfl rfl

/-- Keys of which the first has no position stay as they are. -/
theorem orderByPosition_of_not_startsPlaced (open' : ¬ g.StartsPlaced keys) :
    g.orderByPosition step keys = .ok keys := by
  cases keys with
  | nil => rfl
  | cons first rest =>
    have none : ¬ (g.position? first).isSome = true := fun some' => open' ⟨first, rfl, some'⟩
    exact if_neg none

/-- Keys whose positions count up are put in the order of these. -/
theorem exists_orderByPosition (step : Nat) (h : g.CountsUp keys) :
    ∃ sorted, g.orderByPosition step keys = .ok sorted ∧ sorted.Perm keys ∧
      g.InPositionOrder sorted := by
  cases keys with
  | nil => exact ⟨[], rfl, .nil, rfl⟩
  | cons first rest =>
    refine ⟨_, ?_, List.mergeSort_perm _ _, h.inPositionOrder_mergeSort⟩
    rw [orderByPosition_of_startsPlaced h.startsPlaced, if_pos h]

/-- Changing what there is makes nothing fail. -/
theorem isOk_map {ε α β : Type} (f : α → β) (x : Except ε α) : (x.map f).isOk = x.isOk := by
  cases x <;> rfl

/-- Whether keys are refused is told by their positions, in any order, and by whether the first of
the keys has one. -/
theorem isOk_orderByPosition :
    (g.orderByPosition step keys).isOk = true ↔ g.StartsPlaced keys → g.CountsUp keys := by
  by_cases placed : g.StartsPlaced keys
  · rw [orderByPosition_of_startsPlaced placed]
    by_cases h : g.CountsUp keys
    · simp [h, Except.isOk, Except.toBool]
    · simp [h, placed, Except.isOk, Except.toBool]
  · rw [orderByPosition_of_not_startsPlaced placed]
    simp [placed, Except.isOk, Except.toBool]

/-! ## Steps -/

/-- The slots of the step that an index means are its parameters, put in order, and its return
values. -/
theorem slotsAt_eq (g : PipelineGraph) (index : Int) :
    g.slotsAt index = (g.orderByPosition ((g.resolveStep? index).getD 0) (g.splitAt index).1).map
      fun sorted => (sorted, (g.splitAt index).2) := by
  unfold slotsAt splitAt
  cases g.resolveStep? index with
  | none => rfl
  | some step =>
    unfold stepSlots
    rw [Option.getD_some, Option.elim_some]
    dsimp only
    cases g.orderByPosition step (splitReturns (g.keysAt step)).1 <;> rfl

/-- Positions decide the order of the parameters of a step, or are refused. If they count up from
zero, the parameters are listed in their order. If they do not, they are refused where the first
parameter in key order has one, and do not count where it has none. So whether they are refused is
told by the positions, by whatever names and in whatever order, and by whether the first parameter
has one. The step is the one that the index means, as long as none is counted back from beyond what
signed words hold. -/
theorem slotsAt_of_positions (g : PipelineGraph) (index : Int) :
    (g.CountsUp (g.splitAt index).1 → ∃ sorted,
      g.slotsAt index = .ok (sorted, (g.splitAt index).2) ∧ sorted.Perm (g.splitAt index).1 ∧
        g.InPositionOrder sorted) ∧
    (¬ g.CountsUp (g.splitAt index).1 → g.StartsPlaced (g.splitAt index).1 → ∃ step found,
      g.resolveStep? index = some step ∧ g.slotsAt index = .error ⟨step, found⟩ ∧
        found.Perm ((g.splitAt index).1.map g.position?)) ∧
    (¬ g.StartsPlaced (g.splitAt index).1 → g.slotsAt index = .ok (g.splitAt index)) ∧
    (∀ (other : PipelineGraph) (index' : Int),
      ((other.splitAt index').1.map other.position?).Perm
        ((g.splitAt index).1.map g.position?) →
      (other.StartsPlaced (other.splitAt index').1 ↔ g.StartsPlaced (g.splitAt index).1) →
      (other.slotsAt index').isOk = (g.slotsAt index).isOk) ∧
    (0 ≤ index ∨ -(signedBound : Int) ≤ index ∧ g.StepsBelow signedBound →
      ∀ step, g.resolveStep? index = some step ↔ g.Means index step) := by
  refine ⟨fun counts => ?_, fun gapped placed => ?_, fun open' => ?_,
    fun other index' same first => ?_, fun exact' step => resolveStep?_eq_some_iff exact'⟩
  · obtain ⟨sorted, ordered, perm, inOrder⟩ :=
      exists_orderByPosition ((g.resolveStep? index).getD 0) counts
    refine ⟨sorted, ?_, perm, inOrder⟩
    rw [slotsAt_eq, ordered]
    rfl
  · cases resolved : g.resolveStep? index with
    | none =>
      -- an index that means no step has no parameters, and no parameters have positions that count up
      have empty : (g.splitAt index).1 = [] := by simp [splitAt, resolved]
      exact absurd (show g.CountsUp (g.splitAt index).1 from empty ▸ .nil) gapped
    | some step =>
      refine ⟨step, _, rfl, ?_, (List.mergeSort_perm _ g.ranksBefore).map _⟩
      rw [slotsAt_eq, resolved, Option.getD_some, orderByPosition_of_startsPlaced placed,
        if_neg gapped]
      rfl
  · rw [slotsAt_eq, orderByPosition_of_not_startsPlaced open']
    rfl
  · have counts : other.CountsUp (other.splitAt index').1 ↔ g.CountsUp (g.splitAt index).1 := by
      have length : (other.splitAt index').1.length = (g.splitAt index).1.length := by
        simpa using same.length_eq
      unfold CountsUp
      rw [length]
      exact ⟨same.symm.trans, same.trans⟩
    rw [Bool.eq_iff_iff, slotsAt_eq, slotsAt_eq, isOk_map, isOk_map, isOk_orderByPosition,
      isOk_orderByPosition, counts, first]

/-- Two inputs are put in order against that of their names, two with a gap are refused, and two
without positions stay as they are; whether they are refused does not change when the names are
exchanged, and counting from the end leads to the same step. -/
theorem slotsAt_of_positions_turned :
    let straight := (empty.addInput "a" .int 0).addInput "b" .int 1
    let turned := (empty.addInput "a" .int 1).addInput "b" .int 0
    let gapped := (empty.addInput "a" .int 2).addInput "b" .int 0
    let bare := (empty.addParameter 0 "add" "a").addParameter 0 "add" "b"
    (turned.CountsUp (turned.splitAt 0).1 ∧ ∃ sorted,
      turned.slotsAt 0 = .ok (sorted, (turned.splitAt 0).2) ∧ sorted.Perm (turned.splitAt 0).1 ∧
        turned.InPositionOrder sorted) ∧
    (¬ gapped.CountsUp (gapped.splitAt 0).1 ∧ gapped.StartsPlaced (gapped.splitAt 0).1 ∧
      ∃ step found, gapped.resolveStep? 0 = some step ∧ gapped.slotsAt 0 = .error ⟨step, found⟩ ∧
        found.Perm ((gapped.splitAt 0).1.map gapped.position?)) ∧
    (¬ bare.StartsPlaced (bare.splitAt 0).1 ∧ bare.slotsAt 0 = .ok (bare.splitAt 0)) ∧
    ((turned.splitAt 0).1.map turned.position?).Perm
      ((straight.splitAt 0).1.map straight.position?) ∧
    (turned.StartsPlaced (turned.splitAt 0).1 ↔ straight.StartsPlaced (straight.splitAt 0).1) ∧
    (turned.slotsAt 0).isOk = (straight.slotsAt 0).isOk ∧
    turned.StepsBelow signedBound ∧ ∀ step, turned.resolveStep? (-1) = some step ↔
      turned.Means (-1) step := by
  intro straight turned gapped bare
  have counts : turned.CountsUp (turned.splitAt 0).1 := by decide
  have gap : ¬ gapped.CountsUp (gapped.splitAt 0).1 := by decide
  have placed : gapped.StartsPlaced (gapped.splitAt 0).1 := ⟨.input "a", rfl, rfl⟩
  have open' : ¬ bare.StartsPlaced (bare.splitAt 0).1 := by
    rintro ⟨key, head, some'⟩
    cases head
    cases some'
  have same : ((turned.splitAt 0).1.map turned.position?).Perm
      ((straight.splitAt 0).1.map straight.position?) := by decide
  have first : turned.StartsPlaced (turned.splitAt 0).1 ↔
      straight.StartsPlaced (straight.splitAt 0).1 :=
    iff_of_true ⟨.input "a", rfl, rfl⟩ ⟨.input "a", rfl, rfl⟩
  have few : turned.StepsBelow signedBound := by decide
  exact ⟨⟨counts, (slotsAt_of_positions turned 0).1 counts⟩,
    ⟨gap, placed, (slotsAt_of_positions gapped 0).2.1 gap placed⟩,
    ⟨open', (slotsAt_of_positions bare 0).2.2.1 open'⟩, same, first,
    (slotsAt_of_positions straight 0).2.2.2.1 turned 0 same first, few,
    (slotsAt_of_positions turned (-1)).2.2.2.2 (.inr ⟨by decide, few⟩)⟩

/-! ### A position behind the first input, and a step that no signed word counts -/

/-- A pipeline graph with two inputs, of which only the one behind the first has a position. -/
def unplacedFirst : PipelineGraph :=
  (empty.addNode (.input "a") ⟨some .int, none, none⟩).addInput "b" .int 0

/-- A pipeline graph with the same inputs by each other's names. -/
def unplacedLast : PipelineGraph :=
  (empty.addInput "a" .int 0).addNode (.input "b") ⟨some .int, none, none⟩

/-- A pipeline graph whose only node is at a step that no signed word counts. -/
def faraway : PipelineGraph := empty.addOutput signedBound "out" .int 1

/-- A missing position is accepted of the first input, and is refused when the names are exchanged. The
gap at a step that no signed word counts is accepted when the step is counted from the end. -/
theorem slotsAt_unplacedFirst :
    ((∃ key ∈ (unplacedFirst.splitAt 0).1, (unplacedFirst.position? key).isSome = true) ∧
      ¬ unplacedFirst.CountsUp (unplacedFirst.splitAt 0).1 ∧
      unplacedFirst.slotsAt 0 = .ok ([.input "a", .input "b"], []) ∧
      unplacedLast.slotsAt 0 = .error ⟨0, [some 0, none]⟩) ∧
    faraway.Means (-1) signedBound ∧
      ¬ faraway.CountsUp (splitReturns (faraway.keysAt signedBound)).1 ∧
      faraway.slotsAt (-1) = .ok ([], []) := by
  have placed : unplacedLast.StartsPlaced (unplacedLast.splitAt 0).1 := ⟨.input "a", rfl, rfl⟩
  have gap : ¬ unplacedLast.CountsUp (unplacedLast.splitAt 0).1 := by decide
  have inOrder : (unplacedLast.splitAt 0).1.mergeSort unplacedLast.ranksBefore =
      (unplacedLast.splitAt 0).1 := List.mergeSort_of_pairwise (by decide)
  have refused : unplacedLast.slotsAt 0 = .error ⟨0, [some 0, none]⟩ := by
    rw [slotsAt_eq, orderByPosition_of_startsPlaced placed, if_neg gap, inOrder]
    rfl
  have last : faraway.Means (-1) signedBound :=
    .inr ⟨by decide, .output signedBound "out", by decide, by decide, by decide⟩
  exact ⟨⟨⟨.input "b", by decide, by decide⟩, by decide, by rfl, refused⟩, last, by decide, by rfl⟩

end Pipewright.PipelineGraph
