import Pipewright.Operation.Recipe
import Pipewright.Proofs.Graph.Validation
import Pipewright.Proofs.Graph.Violations

/-! # Validation reports the first violation
A graph that is rejected is rejected for the first check that has something against it, and the
fault names the first node, step or connection that this check has something against. -/

namespace Pipewright

/-- What is found first in an ordered list is found at the first member at which anything is
found. -/
theorem exists_first_of_findSome? {α β : Type} {R : α → α → Prop} {l : List α} {f : α → Option β}
    (ordered : l.Pairwise R) {b : β} (found : l.findSome? f = some b) :
    ∃ a ∈ l, f a = some b ∧ ∀ a' ∈ l, f a' ≠ none → a' = a ∨ R a a' := by
  obtain ⟨before, a, after, rfl, here, nothing⟩ := List.findSome?_eq_some_iff.1 found
  refine ⟨a, by simp, here, fun a' m some' => ?_⟩
  rcases List.mem_append.1 m with m | m
  · exact absurd (nothing a' m) some'
  · rcases List.mem_cons.1 m with rfl | m
    · exact .inl rfl
    · exact .inr ((List.pairwise_cons.1 (List.pairwise_append.1 ordered).2.1).1 a' m)

/-- The same for members that have a property. -/
theorem first_of_find? {α : Type} {R : α → α → Prop} {l : List α} {p : α → Bool}
    (ordered : l.Pairwise R) {a : α} (found : l.find? p = some a) :
    a ∈ l ∧ p a = true ∧ ∀ a' ∈ l, p a' = true → a' = a ∨ R a a' := by
  obtain ⟨holds, before, after, rfl, nothing⟩ := List.find?_eq_some_iff_append.1 found
  refine ⟨by simp, holds, fun a' m holds' => ?_⟩
  rcases List.mem_append.1 m with m | m
  · have := nothing a' m
    rw [holds'] at this
    cases this
  · rcases List.mem_cons.1 m with rfl | m
    · exact .inl rfl
    · exact .inr ((List.pairwise_cons.1 (List.pairwise_append.1 ordered).2.1).1 a' m)

/-- What went wrong, if anything did. -/
def failure? {ε α : Type} : Except ε α → Option ε
  | .ok _ => none
  | .error e => some e

/-- Nothing went wrong if there is a result. -/
theorem failure?_eq_none_iff {ε α : Type} {x : Except ε α} :
    failure? x = none ↔ ∃ a, x = .ok a := by
  cases x <;> simp [failure?]

/-- What went wrong is what is reported. -/
theorem failure?_eq_some_iff {ε α : Type} {x : Except ε α} {e : ε} :
    failure? x = some e ↔ x = .error e := by
  cases x <;> simp [failure?]

/-- Turning the members of a list over fails for the first member that cannot be turned over. -/
theorem findSome?_of_mapM_eq_error {ε α β : Type} {f : α → Except ε β} {l : List α} {e : ε}
    (h : l.mapM f = .error e) : l.findSome? (fun a => failure? (f a)) = some e := by
  induction l with
  | nil => cases h
  | cons a rest ih =>
    rw [List.mapM_cons] at h
    rw [List.findSome?_cons]
    cases turned : f a with
    | error e' =>
      rw [turned] at h
      cases h
      rfl
    | ok b =>
      rw [turned] at h
      refine ih ?_
      cases remaining : rest.mapM f with
      | error e' =>
        rw [remaining] at h
        cases h
        rfl
      | ok rest' =>
        rw [remaining] at h
        cases h

namespace PipelineGraph

variable {g filled : PipelineGraph} {r : Registry} {key : SlotKey} {check : Check}

/-! ## Checks one by one -/

/-- What a check comes to: nothing if it has nothing against a graph, and otherwise a fault that
tells what it has against the first part that it has something against. -/
structure Settles (g : PipelineGraph) (r : Registry) (check : Check) (found : Option GraphFault) :
    Prop where
  /-- Nothing is found only if there is nothing. -/
  passes : found = none → g.Passes r check
  /-- What is found is against the first part. -/
  blames : ∀ fault, found = some fault → ∃ culprit, g.Blames r check culprit fault

/-- A check that asks the members of a list one after another, where each stands for a part of the
graph, in the order of these parts. -/
theorem settles_findSome? {α : Type} {l : List α} {f : α → Option GraphFault} (part : α → Culprit)
    (sound : ∀ a ∈ l, ∀ fault, f a = some fault → Violates g r check (part a) fault)
    (complete : ∀ culprit fault, Violates g r check culprit fault →
      ∃ a ∈ l, part a = culprit ∧ f a ≠ none)
    (ordered : l.Pairwise fun a b => g.Precedes (part a) (part b)) :
    Settles g r check (l.findSome? f) where
  passes nothing culprit fault violated := by
    obtain ⟨a, m, -, found⟩ := complete culprit fault violated
    exact found (List.findSome?_eq_none_iff.1 nothing a m)
  blames fault found := by
    obtain ⟨a, m, here, first⟩ := exists_first_of_findSome? ordered found
    refine ⟨part a, sound a m fault here, fun other fault' violated => ?_⟩
    obtain ⟨a', m', rfl, some'⟩ := complete other fault' violated
    rcases first a' m' some' with rfl | later
    · exact .inl rfl
    · exact .inr later

/-- The nodes of a sound graph are in the order of their keys. -/
theorem Sound.nodes_ordered (s : Sound filled) :
    filled.nodes.Pairwise fun a b => g.Precedes (.node a.1) (.node b.1) :=
  s.sorted.imp .node

/-- The check for nodes. -/
theorem settles_nodes :
    Settles g r .nodes (if g.nodes.isEmpty then some .emptyGraph else none) where
  passes := by
    rintro nothing _ _ ⟨empty⟩
    rw [empty] at nothing
    cases nothing
  blames := by
    intro fault found
    split at found
    · next empty =>
      cases found
      refine ⟨.graph, .emptyGraph (List.isEmpty_iff.1 empty), ?_⟩
      rintro _ _ ⟨-⟩
      exact .inl rfl
    · cases found

/-- The naming check. -/
theorem Sound.settles_names (s : Sound g) (below : g.StepsBelow wordCount) :
    Settles g r .names (g.keys.findSome? (g.namingFault? r)) := by
  refine settles_findSome? .node ?_ ?_ (s.keys.imp .node)
  · intro key m fault found
    unfold namingFault? at found
    cases atEnd : key.step == 0 || key.step == g.lastStep with
    | true =>
      cases named : key.operation with
      | none => simp [atEnd, named] at found
      | some name =>
        simp only [atEnd, named, if_true, Option.some.injEq] at found
        rw [← found]
        exact .stepNaming m ((atEnd_iff below m).1 atEnd) (by simp [named])
    | false =>
      have inner : ¬ g.AtEnd key := fun e => by simp [(atEnd_iff below m).2 e] at atEnd
      cases named : key.operation with
      | none =>
        simp only [atEnd, named, Bool.false_eq_true, if_false, Option.some.injEq] at found
        rw [← found]
        exact .unknownOperation m inner fun o belongs => belongs.bound named
      | some name =>
        simp only [atEnd, named, Bool.false_eq_true, if_false] at found
        split at found
        · cases found
        · next unknown =>
          rw [← Option.some.inj found]
          refine .unknownOperation m inner ?_
          rintro o ⟨name', named', registered⟩
          rw [named] at named'
          cases named'
          exact unknown (contains_operation_iff.2 ⟨o, registered⟩)
  · intro culprit fault violated
    cases violated with
    | stepNaming m atEnd bound =>
      exact ⟨_, m, rfl, fun nothing =>
        bound (((namingFault?_eq_none_iff below m).1 nothing).1 atEnd)⟩
    | unknownOperation m inner unknown =>
      refine ⟨_, m, rfl, fun nothing => ?_⟩
      obtain ⟨o, belongs⟩ := ((namingFault?_eq_none_iff below m).1 nothing).2 inner
      exact unknown o belongs

/-- A slot of an operation has no type to look up only if it is spelled like a part of a return
value that there is not. -/
theorem Belongs.unknownSlot_of_error {o : Operation} (belongs : Belongs r key o)
    {fault : GraphFault} (h : declaredType r key = .error fault) :
    fault = .unknownSlot key ∧ SpelledReturn key.slot ∧ ∀ t, ¬ o.Declares key.slot t := by
  have undeclared : ∀ t, ¬ o.Declares key.slot t := by
    intro t declares
    rw [(declaredType_eq_some_iff belongs).2 ⟨t, declares, rfl⟩] at h
    cases h
  refine ⟨?_, ?_, undeclared⟩
  · unfold declaredType at h
    rw [belongs.bind_eq] at h
    dsimp only at h
    split at h
    · cases h
    · split at h
      · split at h
        · cases h
        · exact (Except.error.inj h).symm
      · cases h
  · by_contra plain
    rw [(declaredType_eq_none_iff belongs).2 ⟨plain, undeclared⟩] at h
    cases h

/-- A slot of an operation cannot be filled in if there is no type for it, or another one. -/
theorem Belongs.violates_of_fillNode {o : Operation} (belongs : Belongs r key o)
    {attrs : SlotAttrs} (m : (key, attrs) ∈ g.nodes) {fault : GraphFault}
    (h : fillNode r (key, attrs) = .error fault) : Violates g r .slotTypes (.node key) fault := by
  unfold fillNode at h
  have bound : key.isBoundary = false := by
    unfold SlotKey.isBoundary
    rw [Option.isNone_eq_false_iff, Option.isSome_iff_ne_none]
    exact belongs.bound
  simp only [bound, Bool.false_eq_true, if_false] at h
  cases looked : declaredType r key with
  | error fault' =>
    rw [looked] at h
    obtain ⟨rfl, spelled, undeclared⟩ := belongs.unknownSlot_of_error looked
    cases h
    exact .unknownSlot (List.mem_map_of_mem m) belongs spelled undeclared
  | ok expected? =>
    rw [looked] at h
    cases expected? with
    | none => cases h
    | some expected =>
      obtain ⟨t, declares, rfl⟩ := (declaredType_eq_some_iff belongs).1 looked
      cases given : attrs.datatype? with
      | none =>
        simp only [given] at h
        cases h
      | some found =>
        simp only [given] at h
        split at h
        · cases h
        · next differs =>
          cases h
          exact .typeMismatch m belongs declares given (by simpa using differs)

/-- The check of the types that slots of operations were given. -/
theorem Sound.settles_slotTypes (s : Sound g)
    (registered : ∀ key ∈ g.keys, key.operation ≠ none → ∃ o, Belongs r key o) :
    Settles g r .slotTypes (g.nodes.findSome? fun node => failure? (fillNode r node)) := by
  refine settles_findSome? (fun node => .node node.1) ?_ ?_ s.nodes_ordered
  · rintro ⟨key, attrs⟩ m fault found
    have failed : fillNode r (key, attrs) = .error fault := failure?_eq_some_iff.1 found
    by_cases bare : key.operation = none
    · rw [fillNode_eq_ok_iff.2 ⟨attrs, rfl, .boundary bare⟩] at failed
      cases failed
    · obtain ⟨o, belongs⟩ := registered key (List.mem_map_of_mem m) bare
      exact belongs.violates_of_fillNode m failed
  · intro culprit fault violated
    cases violated with
    | @unknownSlot key o there belongs spelled undeclared =>
      obtain ⟨⟨_, attrs⟩, m, rfl⟩ := List.mem_map.1 there
      refine ⟨_, m, rfl, fun nothing => ?_⟩
      obtain ⟨after, e⟩ := failure?_eq_none_iff.1 nothing
      obtain ⟨filled, -, fills⟩ := fillNode_eq_ok_iff.1 e
      cases fills with
      | boundary bare => exact belongs.bound bare
      | declared belongs' declares => exact undeclared _ (belongs.unique belongs' ▸ declares)
      | passed belongs' plain => exact plain spelled
    | typeMismatch m belongs declares given differs =>
      refine ⟨_, m, rfl, fun nothing => ?_⟩
      obtain ⟨after, e⟩ := failure?_eq_none_iff.1 nothing
      obtain ⟨filled, -, fills⟩ := fillNode_eq_ok_iff.1 e
      have looked := (declaredType_eq_some_iff belongs).2 ⟨_, declares, rfl⟩
      rw [((fills_iff_of_declaredType belongs.bound looked).1 fills).2 _ given] at differs
      cases differs

/-- Filling in fails for the first node that cannot be filled in. -/
theorem failure_of_fillTypes {fault : GraphFault} (h : g.fillTypes r = .error fault) :
    (g.nodes.findSome? fun node => failure? (fillNode r node)) = some fault := by
  unfold fillTypes at h
  cases turned : g.nodes.mapM (fillNode r) with
  | ok nodes =>
    rw [turned] at h
    cases h
  | error fault' =>
    rw [turned] at h
    cases h
    exact findSome?_of_mapM_eq_error turned

/-- If a graph is filled in, each of its nodes can be. -/
theorem Filling.no_failure (h : Filling r g filled) :
    (g.nodes.findSome? fun node => failure? (fillNode r node)) = none := by
  refine List.findSome?_eq_none_iff.2 fun node m => failure?_eq_none_iff.2 ?_
  obtain ⟨after, -, fills⟩ := h.exists_filled m
  exact ⟨_, fillNode_eq_ok_iff.2 ⟨after, rfl, fills⟩⟩

/-- The check for types of overall inputs and outputs. -/
theorem Filling.settles_boundaryTypes (h : Filling r g filled) (s : Sound g) :
    Settles g r .boundaryTypes (filled.nodes.findSome? untypedFault?) := by
  refine settles_findSome? (fun node => .node node.1) ?_ ?_ (h.sound s).nodes_ordered
  · rintro ⟨key, attrs⟩ m fault found
    unfold untypedFault? at found
    split at found
    · next missing =>
      cases found
      rw [Bool.and_eq_true, SlotKey.isBoundary, Option.isNone_iff_eq_none,
        Option.isNone_iff_eq_none] at missing
      obtain ⟨before, there, fills⟩ := h.exists_of_mem m
      cases fills with
      | boundary => exact .missingDatatype there missing.1 missing.2
      | declared belongs => exact absurd missing.1 belongs.bound
      | passed belongs => exact absurd missing.1 belongs.bound
    · cases found
  · intro culprit fault violated
    cases violated with
    | missingDatatype there boundary untyped =>
      obtain ⟨after, m, fills⟩ := h.exists_filled there
      refine ⟨_, m, rfl, ?_⟩
      cases fills with
      | boundary => simp [untypedFault?, SlotKey.isBoundary, boundary, untyped]
      | declared belongs => exact absurd boundary belongs.bound
      | passed belongs => exact absurd boundary belongs.bound

/-! ### Steps -/

/-- The keys of a step of a sound graph are in their order. -/
theorem Sound.keysAt_ordered (s : Sound g) (step : Nat) : (g.keysAt step).Pairwise (· < ·) :=
  s.keys.filter _

/-- The first key of a step comes before all others of the step. -/
theorem Sound.least_keysAt (s : Sound g) {first : SlotKey} {rest : List SlotKey} {step : Nat}
    (e : g.keysAt step = first :: rest) : ∀ key ∈ g.keysAt step, key = first ∨ first < key := by
  have ordered := s.keysAt_ordered step
  rw [e] at ordered ⊢
  intro key m
  rcases List.mem_cons.1 m with rfl | m
  · exact .inl rfl
  · exact .inr ((List.pairwise_cons.1 ordered).1 key m)

/-- A fault of a step is what the check has against it. -/
theorem Sound.violates_of_stepFault? (s : Sound g)
    (registered : ∀ key ∈ g.keys, key.operation ≠ none → ∃ o, Belongs r key o)
    {first : SlotKey} {rest : List SlotKey} (e : g.keysAt first.step = first :: rest)
    {fault : GraphFault} (found : stepFault? r (first :: rest) = some fault) :
    Violates g r .steps (.step first.step) fault := by
  have m : first ∈ g.keysAt first.step := e ▸ List.mem_cons_self
  have there : first ∈ g.keys := (List.mem_filter.1 m).1
  unfold stepFault? at found
  dsimp only at found
  cases differing : (first :: rest).find? fun key => key.operation != first.operation with
  | some other =>
    simp only [differing, Option.some.injEq] at found
    rw [← e] at differing
    obtain ⟨m', differs, least'⟩ := first_of_find? (s.keysAt_ordered _) differing
    rw [← found]
    exact .mixedStep m (s.least_keysAt e) m' (by simpa using differs)
      fun key k differs => least' key k (by simpa using differs)
  | none =>
    have alone : ∀ key ∈ first :: rest, key.operation = first.operation := by
      simpa using List.find?_eq_none.1 differing
    simp only [differing] at found
    cases operation : first.operation with
    | none =>
      simp only [operation] at found
      cases found
    | some name =>
      obtain ⟨o, name', named, known⟩ := registered first there (by simp [operation])
      obtain rfl : name = name' := Option.some.inj (operation.symm.trans named)
      simp only [operation, known, splitReturns, List.partition_eq_filter_filter] at found
      split at found
      · cases found
      · next unlike =>
        rw [sortTexts_eq_iff, ← e] at unlike
        rw [← Option.some.inj found, ← e]
        exact .incompleteStep there (fun key k => (alone key (e ▸ k)).trans operation) known unlike

/-- The step that a group of keys is of. -/
def stepOf (run : List SlotKey) : Culprit := .step (run.head?.elim 0 SlotKey.step)

/-- The check of the steps. -/
theorem Sound.settles_steps (s : Sound g)
    (registered : ∀ key ∈ g.keys, key.operation ≠ none → ∃ o, Belongs r key o) :
    Settles g r .steps (g.groups.findSome? (stepFault? r)) := by
  have complete : ∀ key ∈ g.keys, stepFault? r (g.keysAt key.step) ≠ none →
      ∃ run ∈ g.groups, stepOf run = .step key.step ∧ stepFault? r run ≠ none := by
    intro key m found
    refine ⟨_, s.mem_groups_iff.2 ⟨key, m, rfl⟩, ?_, found⟩
    have there : key ∈ g.keysAt key.step := List.mem_filter.2 ⟨m, by simp⟩
    cases e : g.keysAt key.step with
    | nil =>
      rw [e] at there
      cases there
    | cons first rest =>
      have : first ∈ g.keysAt key.step := e ▸ List.mem_cons_self
      simpa [stepOf] using (List.mem_filter.1 this).2
  have atStep : ∀ step, ∀ key ∈ g.keysAt step, key.operation ≠ none → ∃ o, Belongs r key o :=
    fun step key m => registered key (List.mem_filter.1 m).1
  refine settles_findSome? stepOf ?_ ?_ ?_
  · intro run m fault found
    obtain ⟨first, k, -⟩ := exists_mem_of_mem_groups m
    cases run with
    | nil => cases k
    | cons first rest =>
      exact s.violates_of_stepFault? registered (s.eq_keysAt m List.mem_cons_self).symm found
  · intro culprit fault violated
    cases violated with
    | mixedStep there least there' differs least' =>
      refine complete _ (List.mem_filter.1 there).1 fun nothing => differs ?_
      exact ((stepFault?_eq_none_iff (atStep _)).1 nothing).1 _ there' _ there
    | @incompleteStep key name o there alone known incomplete =>
      refine complete key there fun nothing => incomplete ?_
      have m : key ∈ g.keysAt key.step := List.mem_filter.2 ⟨there, by simp⟩
      exact ((stepFault?_eq_none_iff (atStep _)).1 nothing).2 key m o ⟨name, alone key m, known⟩
  · refine s.groups_ascending.imp fun {run next} before => ?_
    obtain ⟨some', some'', apart⟩ := before
    cases run with
    | nil => exact absurd rfl some'
    | cons first rest =>
      cases next with
      | nil => exact absurd rfl some''
      | cons first' rest' =>
        exact .step (apart first List.mem_cons_self first' List.mem_cons_self)

/-! ### Literals, connections and types -/

/-- The check of the literals. -/
theorem Filling.settles_literals (h : Filling r g filled) (s : Sound g) (d : Declared g r) :
    Settles g r .literals (filled.nodes.findSome? literalFault?) := by
  refine settles_findSome? (fun node => .node node.1) ?_ ?_ (h.sound s).nodes_ordered
  · rintro ⟨key, attrs⟩ m fault found
    unfold literalFault? at found
    split at found
    · next v t fixed given =>
      obtain ⟨before, there, fills⟩ := h.exists_of_mem m
      have typed := (h.datatype?_eq_some_iff_of_mem s d m).1 given
      split at found
      · cases found
      · next unfit =>
        cases found
        exact .fixedValueType there (fills.fixed?.symm.trans fixed) typed (by simpa using unfit)
    · cases found
  · intro culprit fault violated
    cases violated with
    | fixedValueType there fixed typed unfit =>
      obtain ⟨after, m, fills⟩ := h.exists_filled there
      have given := (h.datatype?_eq_some_iff_of_mem s d m).2 typed
      exact ⟨_, m, rfl, by simp [literalFault?, fills.fixed?, fixed, given, unfit]⟩

/-- The check that no step is left out. -/
theorem Sound.settles_contiguity (s : Sound g) : Settles g r .contiguity g.skippedFault? where
  passes := by
    intro nothing culprit fault violated
    cases violated with
    | skippedStep there below unused =>
      obtain ⟨other, m, e⟩ := s.skippedFault?_eq_none_iff.1 nothing _ there _ (Nat.le_of_lt below)
      exact unused other m e
  blames := by
    intro fault found
    have skipped : ¬ g.skippedFault? = none := by simp [found]
    rw [s.skippedFault?_eq_none_iff] at skipped
    push Not at skipped
    obtain ⟨key, there, step, le, unused⟩ := skipped
    have below : step < key.step := Nat.lt_of_le_of_ne le fun e => unused key there e.symm
    unfold skippedFault? at found
    split at found
    · cases found
    · cases found
      refine ⟨.graph, .skippedStep there below unused s.usedSteps_ascending
        fun n => mem_usedSteps_iff, ?_⟩
      rintro _ _ ⟨-⟩
      exact .inl rfl

/-- Connections are in the order in which they were drawn. -/
theorem edges_ordered : g.edges.Pairwise fun a b => g.Precedes (.edge a) (.edge b) :=
  List.pairwise_iff_forall_sublist.2 .edge

/-- The check of the directions of connections. -/
theorem settles_direction : Settles g r .direction (g.edges.findSome? directionFault?) := by
  refine settles_findSome? .edge ?_ ?_ edges_ordered
  · intro edge m fault found
    unfold directionFault? at found
    split at found
    · cases found
    · next backward =>
      cases found
      exact .backwardEdge m backward
  · intro culprit fault violated
    cases violated with
    | backwardEdge m backward => exact ⟨_, m, rfl, by simp [directionFault?, backward]⟩

/-- The check that slots are fed. -/
theorem Filling.settles_producers (h : Filling r g filled) (s : Sound g) :
    Settles g r .producers (filled.nodes.findSome? filled.producerFault?) := by
  have degree (key : SlotKey) : filled.inDegree key = g.inDegree key := by
    unfold inDegree inEdges
    rw [h.edges]
  refine settles_findSome? (fun node => .node node.1) ?_ ?_ (h.sound s).nodes_ordered
  · rintro ⟨key, attrs⟩ m fault found
    obtain ⟨before, there, fills⟩ := h.exists_of_mem m
    unfold producerFault? at found
    split at found
    · cases found
    · next open' =>
      cases found
      simp only [Bool.or_eq_true, beq_iff_eq, not_or, Bool.not_eq_true, Option.isSome_eq_false_iff,
        Option.isNone_iff_eq_none, SlotKey.isReturn, degree] at open'
      obtain ⟨⟨⟨later, plain⟩, unfixed⟩, unfed⟩ := open'
      rw [degree]
      refine .missingConnection there later (fun spelled => ?_) (fills.fixed?.symm.trans unfixed)
        unfed
      rw [isReturnSlot_iff.2 spelled] at plain
      cases plain
  · intro culprit fault violated
    cases violated with
    | missingConnection there later plain unfixed unfed =>
      obtain ⟨after, m, fills⟩ := h.exists_filled there
      rw [← isReturnSlot_iff] at plain
      exact ⟨_, m, rfl, by
        simp [producerFault?, degree, later, SlotKey.isReturn, plain, fills.fixed?, unfixed, unfed]⟩

/-- The check of the types of connections. -/
theorem Filling.settles_edgeTypes (h : Filling r g filled) (s : Sound g) (d : Declared g r) :
    Settles g r .edgeTypes (g.edges.findSome? filled.acceptanceFault?) := by
  refine settles_findSome? .edge ?_ ?_ edges_ordered
  · intro edge m fault found
    unfold acceptanceFault? at found
    split at found
    · next source target atSource atTarget =>
      split at found
      · cases found
      · next refused =>
        cases found
        exact .edgeTypeMismatch m ((h.datatype?_eq_some_iff s d).1 atSource)
          ((h.datatype?_eq_some_iff s d).1 atTarget) (by simpa using refused)
    · cases found
  · intro culprit fault violated
    cases violated with
    | edgeTypeMismatch m typed typed' refused =>
      have atSource := (h.datatype?_eq_some_iff s d).2 typed
      have atTarget := (h.datatype?_eq_some_iff s d).2 typed'
      exact ⟨_, m, rfl, by simp [acceptanceFault?, atSource, atTarget, refused]⟩

/-! ## All checks -/

/-- No check before one has anything against a graph. -/
def PassesBefore (g : PipelineGraph) (r : Registry) (check : Check) : Prop :=
  ∀ other : Check, other.rank < check.rank → g.Passes r other

/-- A fault tells what the first check that has anything against a graph has against the first part
of the graph that it has something against. -/
def Convicts (g : PipelineGraph) (r : Registry) (fault : GraphFault) : Prop :=
  ∃ check culprit, g.PassesBefore r check ∧ g.Blames r check culprit fault

/-- What a check comes to after the others had nothing to say convicts a graph. -/
theorem Settles.convicts {found : Option GraphFault} (settles : Settles g r check found)
    (before : g.PassesBefore r check) {fault : GraphFault} (here : found = some fault) :
    g.Convicts r fault := by
  obtain ⟨culprit, blames⟩ := settles.blames fault here
  exact ⟨check, culprit, before, blames⟩

/-- If neither the checks before one nor that one have anything against a graph, the next one comes
first. -/
theorem Settles.passesBefore {found : Option GraphFault} (settles : Settles g r check found)
    (next : Check) (before : g.PassesBefore r check) (nothing : found = none)
    (follows : next.rank = check.rank + 1) : g.PassesBefore r next := by
  intro other less
  by_cases same : other = check
  · rw [same]
    exact settles.passes nothing
  · have : other.rank ≠ check.rank := fun e => same (Check.rank_inj e)
    exact before other (by omega)

/-- A graph with a fault in its outline is convicted, and otherwise the first two checks pass. -/
theorem Sound.convicts_or_of_outline (s : Sound g) (below : g.StepsBelow wordCount) :
    (∀ fault, g.outlineFault? r = some fault → g.Convicts r fault) ∧
      (g.outlineFault? r = none → g.PassesBefore r .slotTypes) := by
  have first : g.PassesBefore r .nodes := fun other less => by cases less
  have chain : g.outlineFault? r =
      (if g.nodes.isEmpty then some .emptyGraph else none).or
        (g.keys.findSome? (g.namingFault? r)) := by
    unfold outlineFault?
    split <;> rfl
  rw [chain]
  constructor
  · intro fault found
    rcases Option.or_eq_some_iff.1 found with found | ⟨nothing, found⟩
    · exact settles_nodes.convicts first found
    · have before := settles_nodes.passesBefore .names first nothing rfl
      exact (s.settles_names below).convicts before found
  · intro none
    obtain ⟨nothing, nothing'⟩ := Option.or_eq_none_iff.1 none
    have first := settles_nodes.passesBefore .names first nothing rfl
    exact (s.settles_names below).passesBefore .slotTypes first nothing' rfl

/-- A fault of a graph whose types are filled in convicts the graph as it was given. -/
theorem Filling.convicts (h : Filling r g filled) (s : Sound g)
    (registered : ∀ key ∈ g.keys, key.operation ≠ none → ∃ o, Belongs r key o)
    (before : g.PassesBefore r .boundaryTypes) {fault : GraphFault}
    (found : filled.filledFault? r = some fault) : g.Convicts r fault := by
  unfold filledFault? at found
  rcases Option.or_eq_some_iff.1 found with found | ⟨typed, found⟩
  · exact (h.settles_boundaryTypes s).convicts before found
  have before := (h.settles_boundaryTypes s).passesBefore .steps before typed rfl
  rw [h.groups] at found
  rcases Option.or_eq_some_iff.1 found with found | ⟨steps, found⟩
  · exact (s.settles_steps registered).convicts before found
  have before := (s.settles_steps registered).passesBefore .literals before steps rfl
  -- from here on every slot has a type, the one that is filled in
  have d : Declared g r := declared_of_wired ((fillable_iff registered).1 ⟨_, h⟩).1
    ((s.stepFaults_iff registered).1 steps).2
  rcases Option.or_eq_some_iff.1 found with found | ⟨literals, found⟩
  · exact (h.settles_literals s d).convicts before found
  have before := (h.settles_literals s d).passesBefore .contiguity before literals rfl
  have same : filled.skippedFault? = g.skippedFault? := by
    unfold skippedFault? usedSteps
    rw [h.groups]
  rw [same, h.edges] at found
  rcases Option.or_eq_some_iff.1 found with found | ⟨used, found⟩
  · exact s.settles_contiguity.convicts before found
  have before := s.settles_contiguity.passesBefore .direction before used rfl
  rcases Option.or_eq_some_iff.1 found with found | ⟨forward, found⟩
  · exact settles_direction.convicts before found
  have before := settles_direction.passesBefore .producers before forward rfl
  rcases Option.or_eq_some_iff.1 found with found | ⟨fed, found⟩
  · exact (h.settles_producers s).convicts before found
  have before := (h.settles_producers s).passesBefore .edgeTypes before fed rfl
  exact (h.settles_edgeTypes s d).convicts before found

/-- A graph is rejected for the first violation, as long as the steps behind its own are words: no
earlier check has anything against it, the fault tells what the check has against the first node, step
or connection that it has something against, and the nodes to point at are that node or the ends of
that connection, all of them in the graph. -/
theorem blames_first_of_validate (built : g.Built) (below : g.StepsBelow wordCount)
    {fault : GraphFault} (rejected : g.validate r = .error fault) :
    ∃ check culprit, (∀ other : Check, other.rank < check.rank → g.Passes r other) ∧
      g.Blames r check culprit fault ∧ fault.offendingNodes = culprit.nodes ∧
      ∀ key ∈ fault.offendingNodes, key ∈ g.keys := by
  have s := built.sound
  suffices convicts : g.Convicts r fault by
    obtain ⟨check, culprit, before, blames⟩ := convicts
    have named := blames.violated.offendingNodes
    exact ⟨check, culprit, before, blames, named, named ▸ blames.violated.mem_keys s.ends⟩
  unfold validate at rejected
  cases outline : g.outlineFault? r with
  | some fault' =>
    rw [outline] at rejected
    cases rejected
    exact (s.convicts_or_of_outline below).1 fault outline
  | none =>
    have before := (s.convicts_or_of_outline below).2 outline
    have registered := belongs_of_outlineFault? outline
    have slotTypes := s.settles_slotTypes registered
    rw [outline] at rejected
    cases fill : g.fillTypes r with
    | error fault' =>
      rw [fill] at rejected
      cases rejected
      exact slotTypes.convicts before (failure_of_fillTypes fill)
    | ok filled =>
      have filling := fillTypes_eq_ok_iff.1 fill
      rw [fill] at rejected
      dsimp only at rejected
      split at rejected
      · next found =>
        cases rejected
        have before := slotTypes.passesBefore .boundaryTypes before filling.no_failure rfl
        exact filling.convicts s registered before found
      · cases rejected

/-- A graph with a connection that runs back is rejected for it, although the output is not fed
either. -/
theorem blames_first_of_validate_backward :
    let back := ((empty.addInput "n" .int 0).addOutput 1 "out" .int 0).addEdge (.output 1 "out")
      (.input "n")
    let fault : GraphFault := .backwardEdge (.output 1 "out") (.input "n")
    back.Built ∧ back.StepsBelow wordCount ∧ back.validate .empty = .error fault ∧
      ∃ check culprit, (∀ other : Check, other.rank < check.rank → back.Passes .empty other) ∧
        back.Blames .empty check culprit fault ∧ fault.offendingNodes = culprit.nodes ∧
        ∀ key ∈ fault.offendingNodes, key ∈ back.keys := by
  intro back fault
  have built : back.Built := ⟨.addEdge _ _ (.addNode _ _ (.addNode _ _ .empty)), by decide⟩
  have below : back.StepsBelow wordCount := by decide
  have rejected : back.validate .empty = .error fault := by rfl
  exact ⟨built, below, rejected, blames_first_of_validate built below rejected⟩

/-! ### The types of slots come first, and the last word is followed by zero -/

/-- An operation with an annotated parameter. -/
def clamping : Operation where
  name := "clamp"
  parameters := [("n", .annotated .int [.minimum (.int 0)])]
  returns := .int
  progress? := none
  dependencies := []
  categories := []
  implementation c := Recipe.follow c (.argument "n")

/-- The registry with that operation. -/
def clamps : Registry := ⟨[("clamp", clamping)]⟩

/-- A pipeline of that operation, with no type at the overall input and a wrong one at the
parameter. -/
def mistyped : PipelineGraph :=
  let slots := (((empty.addNode (.input "n") ⟨none, none, some 0⟩).addNode
    (.parameter 1 "clamp" "n") ⟨some .str, none, none⟩).addReturn 1 "clamp").addOutput 2 "out" .int 0
  (slots.addEdge (.input "n") (.parameter 1 "clamp" "n")).addEdge
    (.returnValue 1 "clamp") (.output 2 "out")

/-- An overall input, and an overall output at the step of the last word. -/
def remote : PipelineGraph := (empty.addInput "n" .int 0).addOutput (wordCount - 1) "out" .int 0

/-- The first pipeline is rejected for its parameter, though the overall input comes before it. The
second one is rejected for the name of its overall output, though the check of names has nothing
against it. -/
theorem validate_mistyped :
    (mistyped.Built ∧
      mistyped.validate clamps = .error (.typeMismatch (.parameter 1 "clamp" "n") .int .str) ∧
      Violates mistyped clamps .boundaryTypes (.node (.input "n")) (.missingDatatype (.input "n")) ∧
      SlotKey.input "n" < SlotKey.parameter 1 "clamp" "n") ∧
    remote.Built ∧
      remote.validate .empty = .error (.unknownOperation (.output (wordCount - 1) "out")) ∧
      remote.Passes .empty .names := by
  have built : mistyped.Built := by
    unfold mistyped
    exact ⟨.addEdge _ _ (.addEdge _ _ (.addNode _ _ (.addNode _ _ (.addNode _ _ (.addNode _ _
      .empty))))), by decide⟩
  have untyped : (SlotKey.input "n", (⟨none, none, some 0⟩ : SlotAttrs)) ∈ mistyped.nodes :=
    built.sound.attrs?_eq_some_iff.1 (by rfl)
  have built' : remote.Built := ⟨.addNode _ _ (.addNode _ _ .empty), by decide⟩
  -- its nodes are at the first and the highest step, and name no operation
  have ends : ∀ key ∈ remote.keys, key.operation = none ∧ remote.AtEnd key := by decide
  refine ⟨⟨built, by rfl, .missingDatatype untyped rfl rfl, by decide⟩, built', by rfl, ?_⟩
  intro culprit fault violated
  cases violated with
  | stepNaming there _ bound => exact bound (ends _ there).1
  | unknownOperation there inner => exact inner (ends _ there).2

end PipelineGraph

end Pipewright
