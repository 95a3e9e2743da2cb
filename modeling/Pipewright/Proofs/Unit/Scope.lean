import Pipewright.Proofs.Graph.Dataflow
import Pipewright.Proofs.Unit.Names

/-! # Variables of the function that runs a pipeline
The parameters and variables of the function have different names, so each is read and changed
without touching another one. What the function has declared for the results of steps is told by the
results so far. -/

namespace Pipewright

namespace PipelineGraph

variable {g : PipelineGraph} {r : Registry}

/-! ## Overall inputs and outputs -/

/-- Putting keys in the order of their positions keeps them. -/
theorem perm_of_orderByPosition {step : Nat} {keys sorted : List SlotKey}
    (h : g.orderByPosition step keys = .ok sorted) : sorted.Perm keys := by
  unfold orderByPosition at h
  split at h
  · cases h
    exact .refl _
  · next first rest =>
    split at h
    · simp only at h
      split at h
      · cases h
        exact List.mergeSort_perm _ _
      · cases h
    · cases h
      exact .refl _

/-- The parameters of a step, put in order, are its keys that are spelled like no return value. -/
theorem perm_of_stepSlots {step : Nat} {slots : List SlotKey × List SlotKey}
    (h : g.stepSlots step = .ok slots) :
    slots.1.Perm ((g.keysAt step).filter fun key => !key.isReturn) := by
  unfold stepSlots splitReturns at h
  rw [List.partition_eq_filter_filter] at h
  simp only at h
  cases ordered : g.orderByPosition step ((g.keysAt step).filter fun key => !key.isReturn) with
  | error fault =>
    rw [ordered] at h
    cases h
  | ok sorted =>
    rw [ordered] at h
    cases h
    exact perm_of_orderByPosition ordered

/-- An accepted name is not spelled like a return value. -/
theorem not_spelledReturn_of_nameFault? {name : String} (h : nameFault? name = none) :
    ¬ SpelledReturn name := by
  have word := (nameFault?_eq_none_iff.1 h).1
  rintro (rfl | ⟨rest, rfl⟩)
  · exact absurd word (by decide)
  · unfold Script.isIdentifier at word
    rw [Bool.and_eq_true] at word
    have chars : ∀ c ∈ (returnSlot ++ "." ++ rest).toList, Script.isWordChar c = true := by
      have isWord := word.1
      cases e : (returnSlot ++ "." ++ rest).toList with
      | nil => simp
      | cons c cs =>
        rw [e] at isWord
        unfold Script.isWord at isWord
        rw [Bool.and_eq_true, Bool.and_eq_true] at isWord
        exact List.all_eq_true.1 isWord.1.2
    have dot : '.' ∈ (returnSlot ++ "." ++ rest).toList := by simp
    exact absurd (chars '.' dot) (by decide)

/-- Keys are those of a step, in some order, and their slots are accepted names. -/
structure NamedKeys (g : PipelineGraph) (step : Nat) (keys : List SlotKey) : Prop where
  /-- The keys are those of the step. -/
  perm : keys.Perm (g.keysAt step)
  /-- Their slots are accepted as names. -/
  named : ∀ key ∈ keys, nameFault? key.slot = none

/-- The keys of a step whose slots are accepted names are its parameters. -/
theorem namedKeys_of_stepSlots {step : Nat} {slots : List SlotKey × List SlotKey}
    (h : g.stepSlots step = .ok slots)
    (named : ∀ key ∈ g.keysAt step, nameFault? key.slot = none) : g.NamedKeys step slots.1 := by
  have all : (g.keysAt step).filter (fun key => !key.isReturn) = g.keysAt step := by
    rw [List.filter_eq_self]
    intro key m
    cases e : key.isReturn with
    | false => rfl
    | true => exact absurd (isReturnSlot_iff.1 e) (not_spelledReturn_of_nameFault? (named key m))
  have perm := perm_of_stepSlots h
  rw [all] at perm
  exact ⟨perm, fun key m => named key (perm.mem_iff.1 m)⟩

/-- Names that are accepted at both ends. -/
theorem named_of_boundaryFault? (w : g.Wired r) (h : boundaryFault? g = none) :
    (∀ key ∈ g.keysAt 0, nameFault? key.slot = none) ∧
      ∀ key ∈ g.keysAt g.lastStep, nameFault? key.slot = none := by
  unfold boundaryFault? at h
  simp only [List.findSome?_eq_none_iff] at h
  have first : g.groups.head?.getD [] = g.keysAt 0 := by
    rw [w.groups_eq, List.range_eq_range', List.range'_succ]
    rfl
  have last : g.groups.getLast?.getD [] = g.keysAt g.lastStep := by
    rw [w.groups_eq, List.range_succ, List.map_append, List.map_singleton, List.getLast?_concat]
    rfl
  rw [first, last] at h
  exact ⟨fun key m => h key (List.mem_append_left _ m), fun key m =>
    h key (List.mem_append_right _ m)⟩

/-- The overall inputs are the keys of the first step. -/
theorem namedKeys_of_orderedInputs (w : g.Wired r) (h : boundaryFault? g = none)
    {keys : List SlotKey} (ordered : g.orderedInputs = .ok keys) : g.NamedKeys 0 keys := by
  unfold orderedInputs inputs slotsAt at ordered
  have resolved : g.resolveStep? 0 = some 0 := rfl
  rw [resolved] at ordered
  cases e : g.stepSlots 0 with
  | error fault =>
    simp only [e] at ordered
    cases ordered
  | ok slots =>
    simp only [e] at ordered
    cases ordered
    exact namedKeys_of_stepSlots e (named_of_boundaryFault? w h).1

/-- The index below zero means the last step. -/
theorem Wired.resolveStep?_last (w : g.Wired r) : g.resolveStep? (-1) = some g.lastStep := by
  obtain ⟨top, there, e, -⟩ := exists_step_eq_lastStep w.below.words w.nonempty
  refine (resolveStep?_eq_some_iff (.inr ⟨by decide, w.below⟩)).2
    (.inr ⟨by decide, top, there, ?_, ?_⟩)
  · exact (w.step_eq_lastStep_iff there).1 e
  · omega

/-- The overall outputs are the keys of the last step. -/
theorem namedKeys_of_orderedOutputs (w : g.Wired r) (h : boundaryFault? g = none)
    {keys : List SlotKey} (ordered : g.orderedOutputs = .ok keys) :
    g.NamedKeys g.lastStep keys := by
  unfold orderedOutputs outputs slotsAt at ordered
  rw [w.resolveStep?_last] at ordered
  cases e : g.stepSlots g.lastStep with
  | error fault =>
    simp only [e] at ordered
    cases ordered
  | ok slots =>
    simp only [e] at ordered
    cases ordered
    exact namedKeys_of_stepSlots e (named_of_boundaryFault? w h).2

/-- The names of overall inputs differ, and so do those of overall outputs. -/
theorem NamedKeys.nodup_slots (w : g.Wired r) {step : Nat} {keys : List SlotKey}
    (h : g.NamedKeys step keys) (atEnd : step = 0 ∨ step = g.lastStep) :
    (keys.map SlotKey.slot).Nodup := by
  have keysAt : (g.keysAt step).Nodup := w.sound.nodup_keys.filter _
  have bare : ∀ key ∈ keys, key.step = step ∧ key.operation = none := by
    intro key m
    obtain ⟨there, same⟩ := List.mem_filter.1 (h.perm.mem_iff.1 m)
    rw [beq_iff_eq] at same
    refine ⟨same, w.ends_bare key there ?_⟩
    rcases atEnd with first | last
    · exact .inl (same.trans first)
    · exact .inr ((w.step_eq_lastStep_iff there).1 (same.trans last))
  refine List.Nodup.map_on ?_ (h.perm.nodup_iff.2 keysAt)
  intro a ma b mb same
  obtain ⟨sa, oa⟩ := bare a ma
  obtain ⟨sb, ob⟩ := bare b mb
  obtain ⟨step', operation, slot⟩ := a
  obtain ⟨step'', operation', slot'⟩ := b
  cases sa
  cases sb
  cases oa
  cases ob
  cases same
  rfl

/-! ## Variables -/

section RunScope

variable (g : PipelineGraph) (inputs : List (SlotKey × Datum)) (callback : Progress.Callback)
  (removes : Bool) (results : List (Nat × Datum)) (failed : Bool) (failure : Datum)

/-- The variables of the function that runs a pipeline, the innermost first. The variable of a step
that has not been run holds nothing. -/
def runScope : Entries :=
  ("_failure", failure) :: ("_failed", .bool failed) ::
    (((List.range' 1 (g.lastStep - 1)).map fun i =>
        (g.stepVariable i, (Keyed.lookup i results).getD .unit)).reverse ++
      (removalName, .bool removes) :: (callbackName, .progress callback) ::
        (inputs.map fun entry => (entry.1.slot, entry.2)).reverse)

end RunScope

variable {inputs : List (SlotKey × Datum)} {callback : Progress.Callback} {removes failed : Bool}
  {results : List (Nat × Datum)} {failure : Datum} {i : Nat}

/-- The names of the variables do not depend on what they hold. -/
theorem keys_runScope : Keyed.keys (g.runScope inputs callback removes results failed failure) =
    "_failure" :: "_failed" :: (((List.range' 1 (g.lastStep - 1)).map g.stepVariable).reverse ++
      removalName :: callbackName :: (inputs.map fun entry => entry.1.slot).reverse) := by
  simp [runScope, Keyed.keys, Function.comp_def]

/-- The variables have different names. -/
theorem nodup_runScope (w : g.Wired r) (named : g.NamedKeys 0 (inputs.map Prod.fst)) :
    (Keyed.keys (g.runScope inputs callback removes results failed failure)).Nodup := by
  -- variables of steps have a form that neither reserved names nor names of inputs have
  have own : ∀ x ∈ ownNames, ∀ y ∈ (List.range' 1 (g.lastStep - 1)).map g.stepVariable, x ≠ y := by
    intro x known y m
    obtain ⟨i, -, rfl⟩ := List.mem_map.1 m
    exact ne_of_mem_ownNames known (isStepName_returnVariable _ _)
  have accepted : ∀ x ∈ inputs.map fun entry => entry.1.slot, nameFault? x = none := by
    intro x m
    obtain ⟨entry, m', rfl⟩ := List.mem_map.1 m
    exact named.named _ (List.mem_map_of_mem m')
  have slots : (inputs.map fun entry => entry.1.slot).Nodup := by
    have := named.nodup_slots w (.inl rfl)
    rwa [List.map_map] at this
  have steps : ((List.range' 1 (g.lastStep - 1)).map g.stepVariable).Nodup :=
    List.Nodup.map (fun _ _ => stepVariable_inj) List.nodup_range'
  have free : ∀ x ∈ ownNames, x ∉ inputs.map fun entry => entry.1.slot := fun x known m =>
    ne_of_nameFault? (accepted x m) known rfl
  have apart : ∀ x ∈ ownNames, x ∉ (List.range' 1 (g.lastStep - 1)).map g.stepVariable :=
    fun x known m => own x known x m rfl
  rw [keys_runScope]
  simp only [List.nodup_cons, List.nodup_append, List.nodup_reverse, List.mem_cons,
    List.mem_append, List.mem_reverse, not_or]
  refine ⟨⟨by decide, apart _ (by decide), by decide, by decide, free _ (by decide)⟩,
    ⟨apart _ (by decide), by decide, by decide, free _ (by decide)⟩, steps,
    ⟨⟨by decide, free _ (by decide)⟩, free _ (by decide), slots⟩, ?_⟩
  rintro x m y (rfl | rfl | m') rfl
  · exact apart _ (by decide) m
  · exact apart _ (by decide) m
  · obtain ⟨i, -, rfl⟩ := List.mem_map.1 m
    exact ne_stepName_of_nameFault? (accepted _ m') (isStepName_returnVariable _ _) rfl

/-- The variable of a step holds its result, or nothing yet. -/
theorem lookup_stepVariable (w : g.Wired r) (named : g.NamedKeys 0 (inputs.map Prod.fst))
    (inner : 1 ≤ i) (inner' : i < g.lastStep) :
    Keyed.lookup (g.stepVariable i) (g.runScope inputs callback removes results failed failure) =
      some ((Keyed.lookup i results).getD .unit) := by
  refine Keyed.lookup_of_mem_of_nodup (nodup_runScope w named) ?_
  refine List.mem_cons_of_mem _ (List.mem_cons_of_mem _ (List.mem_append_left _ ?_))
  rw [List.mem_reverse]
  exact List.mem_map.2 ⟨i, List.mem_range'_1.2 (by omega), rfl⟩

/-- The variable of an overall input holds the input. -/
theorem lookup_input (w : g.Wired r) (named : g.NamedKeys 0 (inputs.map Prod.fst)) {key : SlotKey}
    {d : Datum} (m : (key, d) ∈ inputs) :
    Keyed.lookup key.slot (g.runScope inputs callback removes results failed failure) = some d := by
  refine Keyed.lookup_of_mem_of_nodup (nodup_runScope w named) ?_
  refine List.mem_cons_of_mem _ (List.mem_cons_of_mem _ (List.mem_append_right _ ?_))
  refine List.mem_cons_of_mem _ (List.mem_cons_of_mem _ ?_)
  rw [List.mem_reverse]
  exact List.mem_map.2 ⟨(key, d), m, rfl⟩

/-- The variable of the callback holds the callback. -/
theorem lookup_callbackName (w : g.Wired r) (named : g.NamedKeys 0 (inputs.map Prod.fst)) :
    Keyed.lookup callbackName (g.runScope inputs callback removes results failed failure) =
      some (.progress callback) := by
  refine Keyed.lookup_of_mem_of_nodup (nodup_runScope w named) ?_
  simp [runScope]

/-- The variable that says whether nodes may be removed. -/
theorem lookup_removalName (w : g.Wired r) (named : g.NamedKeys 0 (inputs.map Prod.fst)) :
    Keyed.lookup removalName (g.runScope inputs callback removes results failed failure) =
      some (.bool removes) := by
  refine Keyed.lookup_of_mem_of_nodup (nodup_runScope w named) ?_
  simp [runScope]

/-- Keeping the result of a step in its variable. -/
theorem modify_stepVariable (w : g.Wired r) (named : g.NamedKeys 0 (inputs.map Prod.fst))
    (d : Datum) :
    Keyed.modify (g.stepVariable i) (fun _ => d)
        (g.runScope inputs callback removes results failed failure) =
      g.runScope inputs callback removes ((i, d) :: results) failed failure := by
  -- names are different, so the entry of the variable is the only one that changes
  have own : ∀ x ∈ ownNames, x ≠ g.stepVariable i := fun x known =>
    ne_of_mem_ownNames known (isStepName_returnVariable _ _)
  rw [Keyed.modify_eq_map _ _ (nodup_runScope w named)]
  unfold runScope
  simp only [List.map_cons, List.map_append, List.map_reverse, List.map_map]
  rw [if_neg (own _ (by decide)), if_neg (own _ (by decide)), if_neg (own _ (by decide)),
    if_neg (own _ (by decide))]
  have steps : ∀ j ∈ List.range' 1 (g.lastStep - 1),
      ((fun e : String × Datum => (e.1, if e.1 = g.stepVariable i then d else e.2)) ∘
        fun j => (g.stepVariable j, (Keyed.lookup j results).getD .unit)) j =
      (g.stepVariable j, (Keyed.lookup j ((i, d) :: results)).getD .unit) := by
    intro j _
    simp only [Function.comp_apply, Keyed.lookup_cons]
    by_cases same : j = i
    · rw [if_pos same, if_pos (congrArg _ same), Option.getD_some]
    · rw [if_neg same, if_neg fun e => same (stepVariable_inj e)]
  have others : ∀ entry ∈ inputs,
      ((fun e : String × Datum => (e.1, if e.1 = g.stepVariable i then d else e.2)) ∘
        fun entry : SlotKey × Datum => (entry.1.slot, entry.2)) entry =
      (entry.1.slot, entry.2) := by
    intro entry m
    have apart : entry.1.slot ≠ g.stepVariable i :=
      ne_stepName_of_nameFault? (named.named _ (List.mem_map_of_mem m))
        (isStepName_returnVariable _ _)
    simp only [Function.comp_apply, if_neg apart]
  rw [List.map_congr_left steps, List.map_congr_left others]

end PipelineGraph

end Pipewright
