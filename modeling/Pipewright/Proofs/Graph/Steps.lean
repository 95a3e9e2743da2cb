import Mathlib.Data.List.Perm.Subperm
import Mathlib.Data.List.SplitBy
import Pipewright.Graph.Validation
import Pipewright.Proofs.Graph.Built

/-! # The steps of a sound graph
In a sound graph the keys of a step stand together, so the groups of keys are exactly the steps that
have nodes, each with all its keys. The steps that are used are `0`, `1`, … without gap exactly if
below every used step all steps are used. -/

namespace Pipewright

/-! ## Runs of one step -/

/-- All keys of a run belong to one step. -/
def OfOneStep (run : List SlotKey) : Prop := ∀ a ∈ run, ∀ b ∈ run, a.step = b.step

/-- Neither run is empty, and the keys of the first belong to earlier steps than those of the
second. -/
def RunBefore (run next : List SlotKey) : Prop :=
  run ≠ [] ∧ next ≠ [] ∧ ∀ a ∈ run, ∀ b ∈ next, a.step < b.step

instance : Trans RunBefore RunBefore RunBefore where
  trans := by
    intro a b c ⟨ha, hb, hab⟩ ⟨_, hc, hbc⟩
    refine ⟨ha, hc, fun x hx y hy => ?_⟩
    obtain ⟨z, hz⟩ := List.exists_mem_of_ne_nil b hb
    exact Nat.lt_trans (hab x hx z hz) (hbc z hz y hy)

/-- A run between which adjacent keys agree on the step is of one step. -/
theorem ofOneStep_of_isChain {run : List SlotKey}
    (h : run.IsChain fun a b => (a.step == b.step) = true) : OfOneStep run := by
  have steps : run.Pairwise fun a b => a.step = b.step := by
    have h' : run.IsChain fun a b => a.step = b.step := h.imp fun _ _ e => by simpa using e
    have : Trans (fun a b : SlotKey => a.step = b.step) (fun a b : SlotKey => a.step = b.step)
        (fun a b : SlotKey => a.step = b.step) := ⟨fun e e' => e.trans e'⟩
    exact h'.pairwise
  exact steps.forall_of_forall_of_flip (fun _ _ => rfl) (steps.imp Eq.symm)

/-- In the concatenation of ascending runs, each of one step, the keys of a step are a run. -/
theorem eq_filter_flatten {runs : List (List SlotKey)} (each : ∀ run ∈ runs, OfOneStep run)
    (ascending : runs.Pairwise RunBefore) {run : List SlotKey} (m : run ∈ runs) {key : SlotKey}
    (k : key ∈ run) : run = runs.flatten.filter fun a => a.step == key.step := by
  induction runs with
  | nil => simp at m
  | cons first rest ih =>
    obtain ⟨before, ascending⟩ := List.pairwise_cons.1 ascending
    rw [List.flatten_cons, List.filter_append]
    rcases List.mem_cons.1 m with rfl | m
    · have whole : run.filter (fun a => a.step == key.step) = run := by
        rw [List.filter_eq_self]
        intro a ha
        simpa using each run List.mem_cons_self a ha key k
      have none : rest.flatten.filter (fun a => a.step == key.step) = [] := by
        rw [List.filter_eq_nil_iff]
        intro a ha e
        obtain ⟨other, ho, ha⟩ := List.mem_flatten.1 ha
        have l := (before other ho).2.2 key k a ha
        rw [beq_iff_eq] at e
        omega
      rw [whole, none, List.append_nil]
    · have none : first.filter (fun a => a.step == key.step) = [] := by
        rw [List.filter_eq_nil_iff]
        intro a ha e
        have l := (before run m).2.2 a ha key k
        rw [beq_iff_eq] at e
        omega
      rw [none, List.nil_append]
      exact ih (fun run h => each run (List.mem_cons_of_mem _ h)) ascending m

namespace PipelineGraph

variable {g : PipelineGraph}

/-! ## Groups -/

/-- The keys of a group belong to one step. -/
theorem ofOneStep_of_mem_groups {run : List SlotKey} (m : run ∈ g.groups) : OfOneStep run :=
  ofOneStep_of_isChain (List.isChain_of_mem_splitBy m)

/-- The groups of a sound graph are in the order of their steps. -/
theorem Sound.groups_ascending (h : Sound g) : g.groups.Pairwise RunBefore := by
  have joined : g.groups.flatten = g.keys := List.flatten_splitBy _ _
  have apart : g.groups.Pairwise fun run next => ∀ a ∈ run, ∀ b ∈ next, a.step ≤ b.step := by
    have sorted := h.steps
    rw [← joined] at sorted
    exact (List.pairwise_flatten.1 sorted).2
  have adjacent : g.groups.IsChain fun run next => ∃ (ha : run ≠ []) (hb : next ≠ []),
      ((run.getLast ha).step == (next.head hb).step) = false :=
    List.isChain_getLast_head_splitBy (fun a b : SlotKey => a.step == b.step) g.keys
  have chain : g.groups.IsChain RunBefore := by
    have both := List.isChain_iff_getElem.1 apart.isChain
    rw [List.isChain_iff_getElem]
    intro i hi
    have le := both i hi
    obtain ⟨ha, hb, differ⟩ := List.isChain_iff_getElem.1 adjacent i hi
    refine ⟨ha, hb, fun a ma b mb => ?_⟩
    have last := ofOneStep_of_mem_groups (List.getElem_mem (Nat.lt_of_succ_lt hi)) a ma _
      (List.getLast_mem ha)
    have head := ofOneStep_of_mem_groups (List.getElem_mem hi) b mb _ (List.head_mem hb)
    have ne : ¬ (g.groups[i].getLast ha).step = (g.groups[i + 1].head hb).step := by
      simpa using differ
    have := le a ma b mb
    omega
  exact chain.pairwise

/-- A group of a sound graph holds all keys of its step. -/
theorem Sound.eq_keysAt (h : Sound g) {run : List SlotKey} (m : run ∈ g.groups) {key : SlotKey}
    (k : key ∈ run) : run = g.keysAt key.step := by
  have joined : g.groups.flatten = g.keys := List.flatten_splitBy _ _
  have e := eq_filter_flatten (fun _ => ofOneStep_of_mem_groups) h.groups_ascending m k
  rw [joined] at e
  exact e

/-- A group has a key. -/
theorem exists_mem_of_mem_groups {run : List SlotKey} (m : run ∈ g.groups) :
    ∃ key ∈ run, key ∈ g.keys := by
  obtain ⟨key, k⟩ := List.exists_mem_of_ne_nil run (List.ne_nil_of_mem_splitBy m)
  refine ⟨key, k, ?_⟩
  have joined : g.groups.flatten = g.keys := List.flatten_splitBy _ _
  rw [← joined]
  exact List.mem_flatten.2 ⟨run, m, k⟩

/-- Among the groups of a sound graph are the keys of every step that has one, and no other
lists. -/
theorem Sound.mem_groups_iff (h : Sound g) {run : List SlotKey} :
    run ∈ g.groups ↔ ∃ key ∈ g.keys, run = g.keysAt key.step := by
  constructor
  · intro m
    obtain ⟨key, k, there⟩ := exists_mem_of_mem_groups m
    exact ⟨key, there, h.eq_keysAt m k⟩
  · rintro ⟨key, there, rfl⟩
    have joined : g.groups.flatten = g.keys := List.flatten_splitBy _ _
    rw [← joined] at there
    obtain ⟨run, m, k⟩ := List.mem_flatten.1 there
    rw [← h.eq_keysAt m k]
    exact m

/-! ## Used steps -/

/-- A step is used exactly if a key belongs to it. -/
theorem mem_usedSteps_iff {step : Nat} :
    step ∈ g.usedSteps ↔ ∃ key ∈ g.keys, key.step = step := by
  unfold usedSteps
  rw [List.mem_filterMap]
  have joined : g.groups.flatten = g.keys := List.flatten_splitBy _ _
  constructor
  · rintro ⟨run, m, e⟩
    obtain ⟨key, k, rfl⟩ := Option.map_eq_some_iff.1 e
    refine ⟨key, ?_, rfl⟩
    rw [← joined]
    exact List.mem_flatten.2 ⟨run, m, List.mem_of_mem_head? k⟩
  · rintro ⟨key, there, rfl⟩
    rw [← joined] at there
    obtain ⟨run, m, k⟩ := List.mem_flatten.1 there
    refine ⟨run, m, ?_⟩
    cases run with
    | nil => simp at k
    | cons first rest =>
      have e := ofOneStep_of_mem_groups m first List.mem_cons_self key k
      simp [e]

/-- The used steps of a sound graph are ascending. -/
theorem Sound.usedSteps_ascending (h : Sound g) : g.usedSteps.Pairwise (· < ·) := by
  unfold usedSteps
  rw [List.pairwise_filterMap]
  refine h.groups_ascending.imp fun {run next} before step e step' e' => ?_
  obtain ⟨key, k, rfl⟩ := Option.map_eq_some_iff.1 e
  obtain ⟨key', k', rfl⟩ := Option.map_eq_some_iff.1 e'
  exact before.2.2 key (List.mem_of_mem_head? k) key' (List.mem_of_mem_head? k')

/-- An ascending list of numbers that holds all below each of its members counts up from zero. -/
theorem eq_range_of_ascending {steps : List Nat} (ascending : steps.Pairwise (· < ·))
    (below : ∀ n ∈ steps, ∀ m ≤ n, m ∈ steps) : steps = List.range steps.length := by
  have strict : ∀ i j (hi : i < steps.length) (hj : j < steps.length), i < j →
      steps[i] < steps[j] := fun i j hi hj => List.pairwise_iff_getElem.1 ascending i j hi hj
  have atLeast : ∀ i (hi : i < steps.length), i ≤ steps[i] := by
    intro i
    induction i with
    | zero => exact fun _ => Nat.zero_le _
    | succ i ih =>
      intro hi
      have := ih (Nat.lt_of_succ_lt hi)
      have := strict i (i + 1) (Nat.lt_of_succ_lt hi) hi (Nat.lt_succ_self i)
      omega
  have equal : ∀ i (hi : i < steps.length), steps[i] = i := by
    intro i
    induction i using Nat.strong_induction_on with
    | _ i ih =>
      intro hi
      -- the number `i` is a member, and stands at no place before or behind the one of its own
      obtain ⟨j, hj, e⟩ := List.getElem_of_mem
        (below steps[i] (List.getElem_mem hi) i (atLeast i hi))
      have le := atLeast j hj
      rcases Nat.lt_or_eq_of_le (e ▸ le : j ≤ i) with l | rfl
      · have := ih j l hj
        omega
      · exact e
  apply List.ext_getElem
  · simp
  · intro i hi _
    rw [equal i hi, List.getElem_range]

/-- No step of a sound graph is skipped exactly if below every key all steps have keys. -/
theorem Sound.skippedFault?_eq_none_iff (h : Sound g) :
    g.skippedFault? = none ↔
      ∀ key ∈ g.keys, ∀ step ≤ key.step, ∃ other ∈ g.keys, other.step = step := by
  have members : (∀ key ∈ g.keys, ∀ step ≤ key.step, ∃ other ∈ g.keys, other.step = step) ↔
      ∀ n ∈ g.usedSteps, ∀ m ≤ n, m ∈ g.usedSteps := by
    simp only [mem_usedSteps_iff]
    constructor
    · rintro all n ⟨key, there, rfl⟩ m le
      exact all key there m le
    · intro all key there step le
      exact all key.step ⟨key, there, rfl⟩ step le
  rw [members]
  unfold skippedFault?
  constructor
  · intro none n hn m le
    split at none
    · next e =>
      rw [e, List.mem_range] at hn ⊢
      omega
    · simp at none
  · intro below
    rw [if_pos (eq_range_of_ascending h.usedSteps_ascending below)]

/-! ## The last step -/

/-- The steps of all keys are below a bound, and so are the ones behind them. -/
def StepsBelow (g : PipelineGraph) (bound : Nat) : Prop := ∀ key ∈ g.keys, key.step + 1 < bound

instance (g : PipelineGraph) (bound : Nat) : Decidable (g.StepsBelow bound) :=
  inferInstanceAs (Decidable (∀ key ∈ g.keys, key.step + 1 < bound))

/-- Words hold what signed words hold. -/
theorem StepsBelow.words (below : g.StepsBelow signedBound) : g.StepsBelow wordCount :=
  fun key m => Nat.lt_trans (below key m) (by decide)

/-- Where no step is skipped, there are more keys than steps before any of them. -/
theorem step_lt_length_keys
    (contiguous : ∀ key ∈ g.keys, ∀ step ≤ key.step, ∃ other ∈ g.keys, other.step = step)
    {key : SlotKey} (m : key ∈ g.keys) : key.step < g.keys.length := by
  -- the steps up to that of the key are different and all used, so there are as many keys
  have used : List.range (key.step + 1) ⊆ g.keys.map SlotKey.step := by
    intro step before
    obtain ⟨other, there, same⟩ :=
      contiguous key m step (Nat.le_of_lt_succ (List.mem_range.1 before))
    exact List.mem_map.2 ⟨other, there, same⟩
  have count := (List.Nodup.subperm List.nodup_range used).length_le
  rwa [List.length_range, List.length_map] at count

/-- The steps of a graph that can be built and skips none of them are words. -/
theorem Built.stepsBelow (h : g.Built)
    (contiguous : ∀ key ∈ g.keys, ∀ step ≤ key.step, ∃ other ∈ g.keys, other.step = step) :
    g.StepsBelow signedBound := by
  intro key m
  have before := step_lt_length_keys contiguous m
  have fits := h.fits
  rw [keys, Keyed.keys, List.length_map] at before
  omega

/-- As long as steps are words, the step behind the highest one is counted without wrapping around. -/
theorem numSteps_eq (below : g.StepsBelow wordCount) :
    g.numSteps = g.keys.foldl (fun n key => max n (key.step + 1)) 0 :=
  List.foldl_ext _ _ 0 fun n key m => by rw [Nat.mod_eq_of_lt (below key m)]

/-- Folding the maximum gives an upper bound of the start and all members. -/
theorem le_foldl_step (keys : List SlotKey) (start : Nat) :
    start ≤ keys.foldl (fun n key => max n (key.step + 1)) start ∧
      ∀ key ∈ keys, key.step + 1 ≤ keys.foldl (fun n key => max n (key.step + 1)) start := by
  induction keys generalizing start with
  | nil => simp
  | cons key keys ih =>
    obtain ⟨ge, all⟩ := ih (max start (key.step + 1))
    refine ⟨by simp only [List.foldl_cons]; omega, fun other m => ?_⟩
    rcases List.mem_cons.1 m with rfl | m
    · simp only [List.foldl_cons]
      omega
    · exact all other m

/-- Folding the maximum gives the start or what a member counts for. -/
theorem foldl_step_attained (keys : List SlotKey) (start : Nat) :
    keys.foldl (fun n key => max n (key.step + 1)) start = start ∨
      ∃ key ∈ keys, keys.foldl (fun n key => max n (key.step + 1)) start = key.step + 1 := by
  induction keys generalizing start with
  | nil => exact .inl rfl
  | cons key keys ih =>
    rw [List.foldl_cons]
    rcases ih (max start (key.step + 1)) with e | ⟨other, m, e⟩
    · rw [e]
      rcases Nat.le_total start (key.step + 1) with le | le
      · exact .inr ⟨key, List.mem_cons_self, by omega⟩
      · exact .inl (by omega)
    · exact .inr ⟨other, List.mem_cons_of_mem _ m, e⟩

/-- No key belongs to a step behind the last one. -/
theorem step_le_lastStep (below : g.StepsBelow wordCount) {key : SlotKey} (m : key ∈ g.keys) :
    key.step ≤ g.lastStep := by
  have := (le_foldl_step g.keys 0).2 key m
  unfold lastStep
  rw [numSteps_eq below]
  omega

/-- If there is a key, some key belongs to the last step. -/
theorem exists_step_eq_lastStep (below : g.StepsBelow wordCount) (nonempty : g.keys ≠ []) :
    ∃ key ∈ g.keys, key.step = g.lastStep ∧ g.numSteps = g.lastStep + 1 := by
  obtain ⟨first, there⟩ := List.exists_mem_of_ne_nil _ nonempty
  have counted := numSteps_eq below
  rcases foldl_step_attained g.keys 0 with none | ⟨key, m, e⟩
  · have := (le_foldl_step g.keys 0).2 first there
    omega
  · refine ⟨key, m, ?_, ?_⟩
    · unfold lastStep
      omega
    · unfold lastStep
      omega

/-- A key belongs to the last step exactly if no key belongs to a later one. -/
theorem step_eq_lastStep_iff (below : g.StepsBelow wordCount) {key : SlotKey} (m : key ∈ g.keys) :
    key.step = g.lastStep ↔ ∀ other ∈ g.keys, other.step ≤ key.step := by
  constructor
  · intro e other m'
    rw [e]
    exact step_le_lastStep below m'
  · intro all
    obtain ⟨top, there, e, -⟩ := exists_step_eq_lastStep below (List.ne_nil_of_mem m)
    exact Nat.le_antisymm (step_le_lastStep below m) (e ▸ all top there)

/-! ## Steps by index -/

/-- An index means a step: one that is not below zero the step of that number, and one below zero the
step that it leads back to from behind the highest one. -/
def Means (g : PipelineGraph) (index : Int) (step : Nat) : Prop :=
  (step : Int) = index ∨ index < 0 ∧ ∃ top ∈ g.keys,
    (∀ other ∈ g.keys, other.step ≤ top.step) ∧ (step : Int) = top.step + 1 + index

/-- An index that is not below zero stands for a step. -/
theorem resolveStep?_of_nonneg {index : Int} (h : 0 ≤ index) :
    g.resolveStep? index = some index.toNat := by
  unfold resolveStep?
  rw [if_neg (by omega)]

/-- Where nothing wraps around, an index below zero leads back from behind the highest step. -/
theorem resolveStep?_of_neg {index : Int} (h : index < 0)
    (least : -(signedBound : Int) ≤ g.numSteps + index)
    (most : (g.numSteps : Int) + index < signedBound) :
    g.resolveStep? index =
      if (g.numSteps : Int) + index < 0 then none else some ((g.numSteps : Int) + index).toNat := by
  have bound : signedBound = 9223372036854775808 := rfl
  have count : wordCount = 18446744073709551616 := rfl
  have exact' : ((g.numSteps : Int) + index).bmod wordCount = g.numSteps + index :=
    Int.bmod_eq_of_le_mul_two (by omega) (by omega)
  unfold resolveStep?
  rw [if_pos h, exact']

/-- An index stands for the step that it means. One below zero has to be a signed word for that, and
signed words have to count the steps. -/
theorem resolveStep?_eq_some_iff {index : Int} {step : Nat}
    (exact' : 0 ≤ index ∨ -(signedBound : Int) ≤ index ∧ g.StepsBelow signedBound) :
    g.resolveStep? index = some step ↔ g.Means index step := by
  have bound : signedBound = 9223372036854775808 := rfl
  unfold Means
  by_cases negative : index < 0
  · obtain ⟨word, below⟩ := exact'.resolve_left (by omega)
    -- without nodes an index below zero leads to before the first step
    by_cases none : g.keys = []
    · have counted : g.numSteps = 0 := by
        unfold numSteps
        rw [none, List.foldl_nil]
      rw [resolveStep?_of_neg negative (by omega) (by omega), if_pos (by omega), none]
      simp only [List.not_mem_nil, false_and, exists_false, and_false, or_false, reduceCtorEq,
        false_iff]
      omega
    · obtain ⟨top, there, e, counted⟩ := exists_step_eq_lastStep below.words none
      have highest := (step_eq_lastStep_iff below.words there).1 e
      have small := below top there
      rw [resolveStep?_of_neg negative (by omega) (by omega)]
      constructor
      · intro found
        split at found
        · cases found
        · have := Option.some.inj found
          exact .inr ⟨negative, top, there, highest, by omega⟩
      · rintro (same | ⟨-, top', there', highest', same⟩)
        · omega
        · have := highest top' there'
          have := highest' top there
          rw [if_neg (by omega), Option.some.injEq]
          omega
  · rw [resolveStep?_of_nonneg (by omega), Option.some.injEq]
    omega

end PipelineGraph

end Pipewright
