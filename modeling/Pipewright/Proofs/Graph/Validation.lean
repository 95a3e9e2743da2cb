import Pipewright.Operation.Recipe
import Pipewright.Proofs.Graph.Filling

/-! # Validation accepts exactly the well-formed graphs
Each check of validation is tied to the part of well-formedness that it decides, first those of the
graph as it was given, then those of the graph whose types are filled in. -/

namespace Pipewright.PipelineGraph

variable {g : PipelineGraph} {r : Registry} {key : SlotKey}

/-! ## Structure and names -/

/-- A node belongs to one of the ends if its step is the first or the last one. -/
theorem atEnd_iff (below : g.StepsBelow wordCount) (m : key ∈ g.keys) :
    (key.step == 0 || key.step == g.lastStep) = true ↔ g.AtEnd key := by
  rw [Bool.or_eq_true, beq_iff_eq, beq_iff_eq, step_eq_lastStep_iff below m]
  rfl

/-- A registry contains a name if there is an operation of that name. -/
theorem contains_operation_iff {name : String} :
    r.contains name = true ↔ ∃ o, r.operation? name = some o := by
  unfold Registry.contains Registry.operation?
  rw [Keyed.contains_iff, ← Keyed.isSome_lookup_iff, Option.isSome_iff_exists]

/-- The naming check asks for no operation at the ends and for a registered one elsewhere. -/
theorem namingFault?_eq_none_iff (below : g.StepsBelow wordCount) (m : key ∈ g.keys) :
    g.namingFault? r key = none ↔
      (g.AtEnd key → key.operation = none) ∧ (¬ g.AtEnd key → ∃ o, Belongs r key o) := by
  unfold namingFault? Belongs
  rw [← atEnd_iff below m]
  cases key.step == 0 || key.step == g.lastStep with
  | true =>
    cases key.operation with
    | none => simp
    | some name => simp
  | false =>
    cases key.operation with
    | none => simp
    | some name => simp [contains_operation_iff]

/-- The first checks ask for a node and for the right operations. -/
theorem outlineFault?_eq_none_iff (below : g.StepsBelow wordCount) :
    g.outlineFault? r = none ↔ g.nodes ≠ [] ∧
      (∀ key ∈ g.keys, g.AtEnd key → key.operation = none) ∧
      ∀ key ∈ g.keys, ¬ g.AtEnd key → ∃ o, Belongs r key o := by
  unfold outlineFault?
  by_cases empty : g.nodes = []
  · simp [empty]
  · rw [if_neg (by simpa using empty), List.findSome?_eq_none_iff]
    constructor
    · intro all
      exact ⟨empty, fun key m => ((namingFault?_eq_none_iff below m).1 (all key m)).1,
        fun key m => ((namingFault?_eq_none_iff below m).1 (all key m)).2⟩
    · rintro ⟨-, ends, inner⟩ key m
      exact (namingFault?_eq_none_iff below m).2 ⟨ends key m, inner key m⟩

/-- The first checks look at the keys of a graph only. -/
theorem outlineFault?_congr {h : PipelineGraph} (same : g.keys = h.keys) :
    g.outlineFault? r = h.outlineFault? r := by
  have size (g : PipelineGraph) : g.nodes.isEmpty = g.keys.isEmpty := List.isEmpty_map.symm
  unfold outlineFault? namingFault? lastStep numSteps
  rw [size g, size h, same]

/-! ## Complete steps -/

/-- In a graph that passes the first checks every named operation is registered. -/
theorem belongs_of_outlineFault? (outline : g.outlineFault? r = none) :
    ∀ key ∈ g.keys, key.operation ≠ none → ∃ o, Belongs r key o := by
  intro key m bound
  unfold outlineFault? at outline
  split at outline
  · cases outline
  have named := List.findSome?_eq_none_iff.1 outline key m
  obtain ⟨name, e⟩ := Option.ne_none_iff_exists'.1 bound
  unfold namingFault? at named
  simp only [e] at named
  split at named
  · cases named
  split at named
  · next known =>
    obtain ⟨o, found⟩ := contains_operation_iff.1 known
    exact ⟨o, name, e, found⟩
  · cases named

/-- In a graph whose ends name no operation, and all other nodes a registered one, every named
operation is registered. -/
theorem belongs_of_outline (bare : ∀ key ∈ g.keys, g.AtEnd key → key.operation = none)
    (inner : ∀ key ∈ g.keys, ¬ g.AtEnd key → ∃ o, Belongs r key o) :
    ∀ key ∈ g.keys, key.operation ≠ none → ∃ o, Belongs r key o :=
  fun key m bound => inner key m fun atEnd => bound (bare key m atEnd)

/-- Two lists are the same after sorting exactly if one is a rearrangement of the other. -/
theorem sortTexts_eq_iff {a b : List String} : sortTexts a = sortTexts b ↔ a.Perm b := by
  have ordered : ∀ texts : List String, (sortTexts texts).Pairwise (· ≤ ·) := by
    intro texts
    unfold sortTexts
    refine (List.pairwise_mergeSort ?_ ?_ texts).imp ?_
    · intro a b c
      simp only [Bool.not_eq_true', decide_eq_false_iff_not]
      exact fun h h' => String.not_lt.2 (String.le_trans (String.not_lt.1 h) (String.not_lt.1 h'))
    · intro a b
      simp only [Bool.or_eq_true, Bool.not_eq_true', decide_eq_false_iff_not]
      exact (String.le_total a b).imp String.not_lt.2 String.not_lt.2
    · intro a b
      simp only [Bool.not_eq_true', decide_eq_false_iff_not]
      exact String.not_lt.1
  have arranged : ∀ texts : List String, (sortTexts texts).Perm texts :=
    fun texts => List.mergeSort_perm texts _
  constructor
  · intro e
    have p := arranged a
    rw [e] at p
    exact p.symm.trans (arranged b)
  · intro p
    exact ((arranged a).trans (p.trans (arranged b).symm)).eq_of_pairwise
      (fun _ _ _ _ => String.le_antisymm) (ordered a) (ordered b)

/-- The check of a step asks for one operation, and for its parameters as the other slots. -/
theorem stepFault?_eq_none_iff {keys : List SlotKey}
    (registered : ∀ key ∈ keys, key.operation ≠ none → ∃ o, Belongs r key o) :
    stepFault? r keys = none ↔ (∀ a ∈ keys, ∀ b ∈ keys, a.operation = b.operation) ∧
      ∀ key ∈ keys, ∀ o, Belongs r key o →
        ((keys.filter fun key => !key.isReturn).map SlotKey.slot).Perm
          (o.parameters.map Prod.fst) := by
  cases keys with
  | nil => simp [stepFault?]
  | cons first rest =>
    unfold stepFault?
    simp only
    -- a step of one operation agrees in it; then its parameters are compared with the declared ones
    cases differing : (first :: rest).find? fun key => key.operation != first.operation with
    | some other =>
      have m := List.mem_of_find?_eq_some differing
      have ne : other.operation ≠ first.operation := by simpa using List.find?_some differing
      refine iff_of_false (by simp) fun h => ne ?_
      exact h.1 other m first List.mem_cons_self
    | none =>
      have same : ∀ key ∈ first :: rest, key.operation = first.operation := by
        simpa using List.find?_eq_none.1 differing
      have agree : ∀ a ∈ first :: rest, ∀ b ∈ first :: rest, a.operation = b.operation :=
        fun a ha b hb => (same a ha).trans (same b hb).symm
      cases operation : first.operation with
      | none =>
        refine iff_of_true rfl ⟨agree, fun key m o belongs => ?_⟩
        exact absurd ((same key m).trans operation) belongs.bound
      | some name =>
        obtain ⟨o, name', named, found⟩ :=
          registered first List.mem_cons_self (by simp [operation])
        obtain rfl : name = name' := Option.some.inj (operation.symm.trans named)
        have belongs : ∀ key ∈ first :: rest, ∀ o', Belongs r key o' ↔ o' = o := by
          intro key m o'
          unfold Belongs
          rw [(same key m).trans operation]
          simp [found, eq_comm]
        simp only [found, splitReturns, List.partition_eq_filter_filter, ite_eq_left_iff,
          reduceCtorEq, imp_false, not_not, sortTexts_eq_iff]
        constructor
        · intro wired
          refine ⟨agree, fun key m o' b => ?_⟩
          rw [(belongs key m o').1 b]
          exact wired
        · intro h
          exact h.2 first List.mem_cons_self o ((belongs first List.mem_cons_self o).2 rfl)

/-- The check of the steps of a sound graph asks for one operation at each step, and for its
parameters as the other slots. -/
theorem Sound.stepFaults_iff (s : Sound g)
    (registered : ∀ key ∈ g.keys, key.operation ≠ none → ∃ o, Belongs r key o) :
    g.groups.findSome? (stepFault? r) = none ↔
      (∀ key ∈ g.keys, ∀ other ∈ g.keys, key.step = other.step → key.operation = other.operation) ∧
      ∀ key ∈ g.keys, ∀ o, Belongs r key o →
        (g.wiredSlots key.step).Perm (o.parameters.map Prod.fst) := by
  have mem_keysAt : ∀ {key step}, key ∈ g.keysAt step ↔ key ∈ g.keys ∧ key.step = step := by
    simp [keysAt]
  -- a group is what stands at the step of one of its nodes
  have each : g.groups.findSome? (stepFault? r) = none ↔
      ∀ key ∈ g.keys, stepFault? r (g.keysAt key.step) = none := by
    rw [List.findSome?_eq_none_iff]
    constructor
    · exact fun all key m => all _ (s.mem_groups_iff.2 ⟨key, m, rfl⟩)
    · rintro all run m
      obtain ⟨key, there, rfl⟩ := s.mem_groups_iff.1 m
      exact all key there
  have atStep : ∀ step, ∀ key ∈ g.keysAt step, key.operation ≠ none → ∃ o, Belongs r key o :=
    fun step key m => registered key (mem_keysAt.1 m).1
  rw [each]
  constructor
  · intro all
    constructor
    · intro key m other m' e
      exact ((stepFault?_eq_none_iff (atStep _)).1 (all key m)).1 key (mem_keysAt.2 ⟨m, rfl⟩) other
        (mem_keysAt.2 ⟨m', e.symm⟩)
    · intro key m o belongs
      exact ((stepFault?_eq_none_iff (atStep _)).1 (all key m)).2 key (mem_keysAt.2 ⟨m, rfl⟩) o
        belongs
  · rintro ⟨same, wired⟩ key m
    refine (stepFault?_eq_none_iff (atStep _)).2 ⟨fun a ha b hb => ?_, fun other m' o belongs => ?_⟩
    · obtain ⟨ha, ea⟩ := mem_keysAt.1 ha
      obtain ⟨hb, eb⟩ := mem_keysAt.1 hb
      exact same a ha b hb (ea.trans eb.symm)
    · obtain ⟨there, e⟩ := mem_keysAt.1 m'
      have := wired other there o belongs
      rw [e] at this
      exact this

/-- If parameters are wired and the spelled return values are there, every slot has a declared
type. -/
theorem declared_of_wired
    (resolve : ∀ key ∈ g.keys, ∀ o, Belongs r key o → SpelledReturn key.slot →
      ∃ t, o.Declares key.slot t)
    (wired : ∀ key ∈ g.keys, ∀ o, Belongs r key o →
      (g.wiredSlots key.step).Perm (o.parameters.map Prod.fst)) : Declared g r := by
  intro key m o belongs
  by_cases spelled : SpelledReturn key.slot
  · exact resolve key m o belongs spelled
  · have plain : key.isReturn = false := SlotKey.isReturn_eq_false_iff.2 spelled
    have slot : key.slot ∈ g.wiredSlots key.step := by
      refine List.mem_map.2 ⟨key, List.mem_filter.2 ⟨?_, by simp [plain]⟩, rfl⟩
      exact List.mem_filter.2 ⟨m, by simp⟩
    have there : key.slot ∈ Keyed.keys o.parameters := (wired key m o belongs).mem_iff.1 slot
    obtain ⟨t, found⟩ := Keyed.exists_lookup_of_mem_keys there
    exact ⟨t, .parameter spelled found⟩

/-! ## Types, literals and connections -/

section Filled

variable {filled : PipelineGraph}

/-- The check for missing types asks for a type on every overall input and output. -/
theorem Filling.untypedFaults_iff (h : Filling r g filled) :
    filled.nodes.findSome? untypedFault? = none ↔
      ∀ key attrs, (key, attrs) ∈ g.nodes → key.operation = none →
        ∃ t, attrs.datatype? = some t := by
  have each : ∀ {node : SlotKey × SlotAttrs}, untypedFault? node = none ↔
      (node.1.operation = none → ∃ t, node.2.datatype? = some t) := by
    intro node
    unfold untypedFault? SlotKey.isBoundary
    cases node.1.operation with
    | some name => simp
    | none => simp [Option.ne_none_iff_exists']
  rw [List.findSome?_eq_none_iff]
  constructor
  · intro all key attrs m bare
    obtain ⟨after, m', fills⟩ := h.exists_filled m
    cases fills with
    | boundary => exact each.1 (all _ m') bare
    | declared belongs => exact absurd bare belongs.bound
    | passed belongs => exact absurd bare belongs.bound
  · rintro all ⟨key, attrs⟩ m
    refine each.2 fun bare => ?_
    obtain ⟨before, there, fills⟩ := h.exists_of_mem m
    cases fills with
    | boundary => exact all key _ there bare
    | declared belongs => exact absurd bare belongs.bound
    | passed belongs => exact absurd bare belongs.bound

/-- Every node of a graph has a type if the overall inputs and outputs were given one and the slots
have declared ones. -/
theorem exists_hasType (d : Declared g r)
    (registered : ∀ key ∈ g.keys, key.operation ≠ none → ∃ o, Belongs r key o)
    (typed : ∀ key attrs, (key, attrs) ∈ g.nodes → key.operation = none →
      ∃ t, attrs.datatype? = some t) (m : key ∈ g.keys) : ∃ t, g.HasType r key t := by
  by_cases bare : key.operation = none
  · obtain ⟨⟨_, attrs⟩, there, rfl⟩ := List.mem_map.1 m
    obtain ⟨t, given⟩ := typed _ attrs there bare
    exact ⟨t, .given there bare given⟩
  · obtain ⟨o, belongs⟩ := registered key m bare
    obtain ⟨t, declares⟩ := d key m o belongs
    exact ⟨t.unannotated, .declared m belongs declares⟩

/-- The check of literals asks that each conforms to the type of its node. -/
theorem Filling.literalFaults_iff (h : Filling r g filled) (s : Sound g) (d : Declared g r)
    (all : ∀ key ∈ g.keys, ∃ t, g.HasType r key t) :
    filled.nodes.findSome? literalFault? = none ↔
      ∀ key attrs, (key, attrs) ∈ g.nodes → ∀ v, attrs.fixed? = some v →
        ∃ t, g.HasType r key t ∧ v.conformsTo t := by
  have found : ∀ {key attrs}, (key, attrs) ∈ filled.nodes →
      ∀ {t}, attrs.datatype? = some t ↔ g.HasType r key t :=
    h.datatype?_eq_some_iff_of_mem s d
  rw [List.findSome?_eq_none_iff]
  constructor
  · intro pass key attrs m v fixed
    obtain ⟨after, m', fills⟩ := h.exists_filled m
    obtain ⟨t, typed⟩ := all key (List.mem_map_of_mem m)
    refine ⟨t, typed, ?_⟩
    have checked := pass _ m'
    unfold literalFault? at checked
    rw [fills.fixed?, fixed, (found m').2 typed] at checked
    simpa using checked
  · rintro conform ⟨key, attrs⟩ m
    obtain ⟨before, there, fills⟩ := h.exists_of_mem m
    unfold literalFault?
    rw [fills.fixed?]
    cases fixed : before.fixed? with
    | none => rfl
    | some v =>
      obtain ⟨t, typed, conforms⟩ := conform key before there v fixed
      simp [(found m).2 typed, conforms]

/-- The check of directions asks that every connection goes to a later step. -/
theorem directionFaults_iff :
    g.edges.findSome? directionFault? = none ↔ ∀ edge ∈ g.edges, edge.1.step < edge.2.step := by
  rw [List.findSome?_eq_none_iff]
  simp [directionFault?]

/-- In a sound graph a slot is fed by exactly one connection if one connection ends there. -/
theorem Sound.inDegree_eq_one_iff (s : Sound g) :
    g.inDegree key = 1 ↔ ∃! source, (source, key) ∈ g.edges := by
  have member : ∀ {edge}, edge ∈ g.inEdges key ↔ edge ∈ g.edges ∧ edge.2 = key := by
    simp [inEdges]
  unfold inDegree
  rw [List.length_eq_one_iff]
  constructor
  · rintro ⟨edge, e⟩
    have m : edge ∈ g.edges ∧ edge.2 = key := member.1 (by simp [e])
    obtain ⟨source, target⟩ := edge
    obtain ⟨m, rfl⟩ := m
    refine ⟨source, m, fun other m' => ?_⟩
    have : (other, target) ∈ g.inEdges target := member.2 ⟨m', rfl⟩
    rw [e, List.mem_singleton] at this
    exact congrArg Prod.fst this
  · rintro ⟨source, m, only⟩
    have members : ∀ edge, edge ∈ g.inEdges key ↔ edge ∈ [(source, key)] := by
      intro edge
      rw [member, List.mem_singleton]
      constructor
      · rintro ⟨m', rfl⟩
        exact Prod.ext (only edge.1 m') rfl
      · rintro rfl
        exact ⟨m, rfl⟩
    have once : (g.inEdges key).Nodup := s.once.filter _
    exact ⟨(source, key),
      ((List.perm_ext_iff_of_nodup once (List.nodup_singleton _)).2 members).eq_singleton⟩

/-- The check of producers asks that every slot that takes a value has a literal or is fed by
exactly one connection. -/
theorem Filling.producerFaults_iff (h : Filling r g filled) (s : Sound g) :
    filled.nodes.findSome? filled.producerFault? = none ↔
      ∀ key attrs, (key, attrs) ∈ g.nodes → key.step ≠ 0 → ¬ SpelledReturn key.slot →
        attrs.fixed? = none → ∃! source, (source, key) ∈ g.edges := by
  have each : ∀ {key attrs}, filled.producerFault? (key, attrs) = none ↔
      (key.step ≠ 0 → ¬ SpelledReturn key.slot → attrs.fixed? = none →
        ∃! source, (source, key) ∈ g.edges) := by
    intro key attrs
    have degree : filled.inDegree key = 1 ↔ ∃! source, (source, key) ∈ filled.edges :=
      (h.sound s).inDegree_eq_one_iff
    rw [h.edges] at degree
    rw [← degree, ← isReturnSlot_iff]
    unfold producerFault? SlotKey.isReturn
    cases attrs.fixed? with
    | none => simp
    | some v => simp
  rw [List.findSome?_eq_none_iff]
  constructor
  · intro pass key attrs m inner plain open'
    obtain ⟨after, m', fills⟩ := h.exists_filled m
    exact each.1 (pass _ m') inner plain (fills.fixed?.trans open')
  · rintro fed ⟨key, attrs⟩ m
    obtain ⟨before, there, fills⟩ := h.exists_of_mem m
    exact each.2 fun inner plain open' =>
      fed key before there inner plain (fills.fixed?.symm.trans open')

/-- The check of connections asks that the slot at which one ends accepts its source. -/
theorem Filling.acceptanceFaults_iff (h : Filling r g filled) (s : Sound g) (d : Declared g r)
    (all : ∀ key ∈ g.keys, ∃ t, g.HasType r key t) :
    filled.edges.findSome? filled.acceptanceFault? = none ↔
      ∀ edge ∈ g.edges, ∃ source target, g.HasType r edge.1 source ∧
        g.HasType r edge.2 target ∧ target.accepts source := by
  rw [List.findSome?_eq_none_iff, h.edges]
  refine forall₂_congr fun edge m => ?_
  obtain ⟨source, hs⟩ := all _ (s.ends edge m).1
  obtain ⟨target, ht⟩ := all _ (s.ends edge m).2
  have hs' := (h.datatype?_eq_some_iff s d).2 hs
  have ht' := (h.datatype?_eq_some_iff s d).2 ht
  unfold acceptanceFault?
  rw [hs', ht']
  simp only [ite_eq_left_iff, Bool.not_eq_true, reduceCtorEq, imp_false, Bool.not_eq_false]
  constructor
  · exact fun accepts => ⟨source, target, hs, ht, accepts⟩
  · rintro ⟨source', target', hs'', ht'', accepts⟩
    rw [(h.datatype?_eq_some_iff s d).2 hs''] at hs'
    rw [(h.datatype?_eq_some_iff s d).2 ht''] at ht'
    rw [← Option.some.inj hs', ← Option.some.inj ht']
    exact accepts

end Filled

/-! ## All checks -/

/-- Validation succeeds if there is no fault in the graph as it was given, and none after its types
are filled in. -/
theorem validate_eq_ok_iff {p : ValidatedPipeline} :
    g.validate r = .ok p ↔
      g.outlineFault? r = none ∧ Filling r g p.graph ∧ p.graph.filledFault? r = none := by
  unfold validate
  rw [← fillTypes_eq_ok_iff]
  cases g.outlineFault? r with
  | some fault => simp
  | none =>
    cases g.fillTypes r with
    | error fault => simp
    | ok filled =>
      simp only [Except.ok.injEq, true_and]
      cases h : filled.filledFault? r with
      | some fault =>
        simp only [reduceCtorEq, false_iff, not_and]
        rintro rfl
        simp [h]
      | none =>
        simp only [Except.ok.injEq]
        constructor
        · rintro rfl
          exact ⟨rfl, h⟩
        · rintro ⟨rfl, -⟩
          rfl

/-- In a graph that can be filled, the spelled return values are there, and the types that were
given to slots are the declared ones. -/
theorem fillable_iff (registered : ∀ key ∈ g.keys, key.operation ≠ none → ∃ o, Belongs r key o) :
    (∃ filled, Filling r g filled) ↔
      (∀ key ∈ g.keys, ∀ o, Belongs r key o → SpelledReturn key.slot →
        ∃ t, o.Declares key.slot t) ∧
      ∀ key attrs, (key, attrs) ∈ g.nodes → ∀ o, Belongs r key o →
        ∀ t, o.Declares key.slot t → ∀ found, attrs.datatype? = some found →
          found.unannotated == t.unannotated := by
  rw [exists_filling_iff]
  constructor
  · intro all
    constructor
    · rintro key m o belongs spelled
      obtain ⟨⟨_, attrs⟩, there, rfl⟩ := List.mem_map.1 m
      obtain ⟨filled, fills⟩ := all _ attrs there
      cases fills with
      | boundary bare => exact absurd bare belongs.bound
      | declared belongs' declares =>
        rw [belongs.unique belongs']
        exact ⟨_, declares⟩
      | passed belongs' plain => exact absurd spelled plain
    · intro key attrs m o belongs t declares
      obtain ⟨filled, fills⟩ := all key attrs m
      have type := (declaredType_eq_some_iff belongs).2 ⟨t, declares, rfl⟩
      exact ((fills_iff_of_declaredType belongs.bound type).1 fills).2
  -- each node is one at the ends, one with a declared type, or one that is passed over
  · rintro ⟨resolve, agree⟩ key attrs m
    have there : key ∈ g.keys := List.mem_map_of_mem m
    by_cases bare : key.operation = none
    · exact ⟨attrs, .boundary bare⟩
    · obtain ⟨o, belongs⟩ := registered key there bare
      by_cases declared : ∃ t, o.Declares key.slot t
      · obtain ⟨t, declares⟩ := declared
        exact ⟨_, .declared belongs declares (agree key attrs m o belongs t declares)⟩
      · have plain : ¬ SpelledReturn key.slot := fun spelled =>
          declared (resolve key there o belongs spelled)
        exact ⟨attrs, .passed belongs plain fun t declares => declared ⟨t, declares⟩⟩

/-- Validation accepts no graph that skips a step. -/
theorem Sound.contiguous_of_validate (s : Sound g) {p : ValidatedPipeline}
    (e : g.validate r = .ok p) :
    ∀ key ∈ g.keys, ∀ step ≤ key.step, ∃ other ∈ g.keys, other.step = step := by
  obtain ⟨-, fill, checks⟩ := validate_eq_ok_iff.1 e
  simp only [filledFault?, Option.or_eq_none_iff] at checks
  obtain ⟨-, -, -, skipped, -⟩ := checks
  have := (fill.sound s).skippedFault?_eq_none_iff.1 skipped
  rwa [fill.keys] at this

/-- What validation accepts is well-formed, as long as its steps are words. -/
theorem Sound.wellFormed_of_validate (s : Sound g) (below : g.StepsBelow wordCount)
    {p : ValidatedPipeline} (e : g.validate r = .ok p) : g.WellFormed r := by
  obtain ⟨outline, fill, checks⟩ := validate_eq_ok_iff.1 e
  obtain ⟨nonempty, bare, inner⟩ := (outlineFault?_eq_none_iff below).1 outline
  have registered := belongs_of_outlineFault? outline
  obtain ⟨resolve, given⟩ := (fillable_iff registered).1 ⟨_, fill⟩
  simp only [filledFault?, Option.or_eq_none_iff] at checks
  obtain ⟨typed, steps, literals, -, direction, producers, acceptance⟩ := checks
  have boundary := fill.untypedFaults_iff.1 typed
  rw [fill.groups] at steps
  obtain ⟨one, wired⟩ := (s.stepFaults_iff registered).1 steps
  have d := declared_of_wired resolve wired
  have all : ∀ key ∈ g.keys, ∃ t, g.HasType r key t :=
    fun _ => exists_hasType d registered boundary
  exact
    { nonempty := nonempty
      ends_bare := bare
      inner_registered := inner
      returns_resolve := resolve
      given_types := given
      boundary_typed := boundary
      one_operation := one
      parameters_wired := wired
      literals_conform := (fill.literalFaults_iff s d all).1 literals
      contiguous := s.contiguous_of_validate e
      forward := by
        have := directionFaults_iff.1 direction
        rwa [fill.edges] at this
      fed := (fill.producerFaults_iff s).1 producers
      accepted := (fill.acceptanceFaults_iff s d all).1 acceptance }

/-- What validation accepts of the graphs that can be built is well-formed. -/
theorem wellFormed_of_validate (h : g.Built) {p : ValidatedPipeline} (e : g.validate r = .ok p) :
    g.WellFormed r :=
  h.sound.wellFormed_of_validate (h.stepsBelow (h.sound.contiguous_of_validate e)).words e

/-- What is well-formed is accepted by validation, as long as its steps are words. -/
theorem WellFormed.exists_validate (w : g.WellFormed r) (s : Sound g)
    (below : g.StepsBelow wordCount) : ∃ p, g.validate r = .ok p := by
  have registered := belongs_of_outline w.ends_bare w.inner_registered
  obtain ⟨filled, fill⟩ := (fillable_iff registered).2 ⟨w.returns_resolve, w.given_types⟩
  have d := declared_of_wired w.returns_resolve w.parameters_wired
  have all : ∀ key ∈ g.keys, ∃ t, g.HasType r key t :=
    fun _ => exists_hasType d registered w.boundary_typed
  refine ⟨⟨filled⟩, validate_eq_ok_iff.2 ⟨?_, fill, ?_⟩⟩
  · exact (outlineFault?_eq_none_iff below).2 ⟨w.nonempty, w.ends_bare, w.inner_registered⟩
  · simp only [filledFault?, Option.or_eq_none_iff]
    refine ⟨fill.untypedFaults_iff.2 w.boundary_typed, ?_,
      (fill.literalFaults_iff s d all).2 w.literals_conform, ?_, ?_,
      (fill.producerFaults_iff s).2 w.fed, (fill.acceptanceFaults_iff s d all).2 w.accepted⟩
    · rw [fill.groups]
      exact (s.stepFaults_iff registered).2 ⟨w.one_operation, w.parameters_wired⟩
    · rw [(fill.sound s).skippedFault?_eq_none_iff, fill.keys]
      exact w.contiguous
    · rw [directionFaults_iff, fill.edges]
      exact w.forward

/-- Validation accepts exactly the well-formed graphs. -/
theorem exists_validate_iff (h : g.Built) : (∃ p, g.validate r = .ok p) ↔ g.WellFormed r := by
  constructor
  · rintro ⟨p, e⟩
    exact wellFormed_of_validate h e
  · intro w
    exact w.exists_validate h.sound (h.stepsBelow w.contiguous).words

/-- An operation that doubles a number. -/
def timesTwo : Operation where
  name := "twice"
  parameters := [("n", .int)]
  returns := .int
  progress? := none
  dependencies := []
  categories := []
  implementation c := Recipe.follow c (.double "n")

/-- An operation that makes a square of a size, and also tells its width. -/
def squaring : Operation where
  name := "square"
  parameters := [("size", .annotated .int [.minimum (.int 0)])]
  returns := .pack "Square" [("size", .int), ("width", .int)]
  progress? := none
  dependencies := []
  categories := []
  implementation c := Recipe.follow c (.map [("size", .int "size"), ("width", .int "size")])

/-- The registry with these operations. -/
def shapes : Registry := ⟨[("square", squaring), ("twice", timesTwo)]⟩

/-- What comes in is doubled, and a square of a fixed size is made. The doubled number and the width
of the square go out. -/
def squaredOnce : PipelineGraph :=
  let slots := ((((((empty.addInput "n" .int 0).addParameter 1 "twice" "n").addReturn 1
    "twice").addFixed 2 "square" "size" (.int 3)).addReturnField 2 "square" "width").addOutput 3
    "twice" .float 0).addOutput 3 "width" .int 1
  ((slots.addEdge (.input "n") (.parameter 1 "twice" "n")).addEdge (.returnValue 1 "twice")
    (.output 3 "twice")).addEdge (.returnField 2 "square" "width") (.output 3 "width")

/-- That pipeline is well-formed, because validation accepts it. -/
theorem exists_validate_iff_squaredOnce : squaredOnce.Built ∧ squaredOnce.WellFormed shapes := by
  have built : squaredOnce.Built := by
    unfold squaredOnce addOutput addReturn addReturnField addFixed addParameter addInput
    exact ⟨.addEdge _ _ (.addEdge _ _ (.addEdge _ _ (.addNode _ _ (.addNode _ _ (.addNode _ _
      (.addNode _ _ (.addNode _ _ (.addNode _ _ (.addNode _ _ .empty))))))))), by decide +kernel⟩
  have accepted : squaredOnce.validate shapes = .ok _ :=
    eq_ok_of_isOk (by decide +kernel) ⟨empty⟩
  exact ⟨built, (exists_validate_iff built).1 ⟨_, accepted⟩⟩

end Pipewright.PipelineGraph
