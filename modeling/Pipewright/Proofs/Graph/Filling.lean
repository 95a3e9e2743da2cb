import Pipewright.Proofs.Graph.Steps
import Pipewright.Proofs.Graph.WellFormed

/-! # Filling in types
The type that validation looks up for a slot is the one that its operation declares, and filling in
a graph puts that type on every node that has one, changing nothing else. -/

namespace Pipewright

/-- What goes through has a result. -/
theorem eq_ok_of_isOk {ε α : Type} {x : Except ε α} (h : x.isOk = true) (other : α) :
    x = .ok (x.toOption.getD other) := by
  cases x with
  | ok a => rfl
  | error e => cases h

/-! ## Spelling of return values -/

/-- What follows `return` in a slot's name. -/
theorem afterReturn?_eq_some_iff {slot : String} {rest : List Char} :
    afterReturn? slot = some rest ↔ slot = returnSlot ++ String.ofList rest := by
  rw [afterReturn?, Text.dropLead?_eq_some_iff, ← String.toList_inj, String.toList_append,
    String.toList_ofList]

/-- A dot and what follows it. -/
theorem dot_append (rest : List Char) : String.ofList ('.' :: rest) = "." ++ String.ofList rest := by
  rw [← String.toList_inj]
  simp

/-- The test for return values decides their spelling. -/
theorem isReturnSlot_iff {slot : String} : isReturnSlot slot = true ↔ SpelledReturn slot := by
  unfold isReturnSlot
  constructor
  · intro h
    split at h
    · next e => exact .inl (by simpa using afterReturn?_eq_some_iff.1 e)
    · next rest e =>
      refine .inr ⟨String.ofList rest, ?_⟩
      rw [afterReturn?_eq_some_iff.1 e, dot_append, String.append_assoc]
    · simp at h
  · rintro (e | ⟨rest, e⟩)
    · rw [afterReturn?_eq_some_iff.2 (by simpa using e : slot = returnSlot ++ String.ofList [])]
    · have dotted : afterReturn? slot = some ('.' :: rest.toList) := by
        rw [afterReturn?_eq_some_iff, e, dot_append, String.ofList_toList, String.append_assoc]
      simp [dotted]

/-- A slot is no return value exactly if it is not spelled like one. -/
theorem SlotKey.isReturn_eq_false_iff {key : SlotKey} :
    key.isReturn = false ↔ ¬ SpelledReturn key.slot := by
  rw [SlotKey.isReturn, ← isReturnSlot_iff, Bool.not_eq_true]

/-- A key names a field of a return value exactly if it is spelled so, with a path that is not
empty. -/
theorem SlotKey.returnField?_eq_some_iff {key : SlotKey} {path : String} :
    key.returnField? = some path ↔ path ≠ "" ∧ key.slot = returnSlot ++ "." ++ path := by
  unfold SlotKey.returnField?
  constructor
  · intro h
    split at h
    · next c rest e =>
      rw [← Option.some.inj h]
      refine ⟨by simp [← String.toList_inj], ?_⟩
      rw [afterReturn?_eq_some_iff.1 e, dot_append, String.append_assoc]
    · simp at h
  · rintro ⟨nonempty, e⟩
    have dotted : afterReturn? key.slot = some ('.' :: path.toList) := by
      rw [afterReturn?_eq_some_iff, e, dot_append, String.ofList_toList, String.append_assoc]
    rw [dotted]
    cases hp : path.toList with
    | nil => exact absurd (String.toList_inj.1 hp) nonempty
    | cons c rest =>
      have spelled : String.ofList (c :: rest) = path := by rw [← hp, String.ofList_toList]
      simp [spelled]

/-- A path behind `return.` makes no whole return value. -/
theorem returnSlot_dot_ne (path : String) : returnSlot ++ "." ++ path ≠ returnSlot := by
  intro e
  have length := congrArg String.length e
  simp only [String.length_append] at length
  have : ".".length = 1 := by decide
  omega

/-! ## Declared types -/

namespace Operation

variable {o : Operation} {t : DataType}

/-- The declared type of the return value is that of what is returned. -/
theorem declares_returnSlot_iff : o.Declares returnSlot t ↔ t = o.returns := by
  constructor
  · intro h
    generalize e : returnSlot = slot at h
    cases h with
    | result => rfl
    | field nonempty leads => exact absurd e.symm (returnSlot_dot_ne _)
    | parameter plain found => exact absurd (.inl e.symm) plain
  · rintro rfl
    exact .result

/-- The declared type of a part of the return value is what its path leads to. -/
theorem declares_field_iff {key : SlotKey} (whole : key.slot ≠ returnSlot)
    (spelled : SpelledReturn key.slot) :
    o.Declares key.slot t ↔ key.returnField?.bind o.returns.fieldPath? = some t := by
  constructor
  · intro h
    generalize e : key.slot = slot at h
    cases h with
    | result => exact absurd e whole
    | field nonempty leads =>
      rw [SlotKey.returnField?_eq_some_iff.2 ⟨nonempty, e⟩]
      exact leads
    | parameter plain found => exact absurd (e ▸ spelled) plain
  · intro h
    obtain ⟨path, field, leads⟩ := Option.bind_eq_some_iff.1 h
    obtain ⟨nonempty, e⟩ := SlotKey.returnField?_eq_some_iff.1 field
    rw [e]
    exact .field nonempty leads

/-- The declared type of any other slot is that of the parameter. -/
theorem declares_plain_iff {slot : String} (plain : ¬ SpelledReturn slot) :
    o.Declares slot t ↔ o.parameter? slot = some t := by
  constructor
  · intro h
    cases h with
    | result => exact absurd (.inl rfl) plain
    | field nonempty leads => exact absurd (.inr ⟨_, rfl⟩) plain
    | parameter _ found => exact found
  · exact .parameter plain

end Operation

namespace PipelineGraph

variable {g : PipelineGraph} {r : Registry} {key : SlotKey} {o : Operation}

/-- The operation of a key is the one it belongs to. -/
theorem Belongs.bind_eq (h : Belongs r key o) : key.operation.bind r.operation? = some o := by
  obtain ⟨name, named, registered⟩ := h
  rw [named]
  exact registered

/-- A slot of an operation gets a type exactly if the operation declares one for it. -/
theorem declaredType_eq_some_iff (h : Belongs r key o) {t : DataType} :
    declaredType r key = .ok (some t) ↔ ∃ t', o.Declares key.slot t' ∧ t'.unannotated = t := by
  unfold declaredType
  rw [h.bind_eq]
  simp only
  by_cases whole : key.slot = returnSlot
  · rw [if_pos whole, whole]
    simp [Operation.declares_returnSlot_iff]
  · rw [if_neg whole]
    by_cases spelled : key.isReturn = true
    · simp only [if_pos spelled, Operation.declares_field_iff whole (isReturnSlot_iff.1 spelled)]
      cases key.returnField?.bind o.returns.fieldPath? with
      | none => simp
      | some t' => simp
    · have plain : ¬ SpelledReturn key.slot := fun s => spelled (isReturnSlot_iff.2 s)
      simp only [if_neg spelled, Operation.declares_plain_iff plain]
      cases o.parameter? key.slot with
      | none => simp
      | some t' => simp

/-- A slot of an operation is passed over exactly if it is not spelled like a return value and the
operation declares no type for it. -/
theorem declaredType_eq_none_iff (h : Belongs r key o) :
    declaredType r key = .ok none ↔ ¬ SpelledReturn key.slot ∧ ∀ t, ¬ o.Declares key.slot t := by
  unfold declaredType
  rw [h.bind_eq]
  simp only
  by_cases whole : key.slot = returnSlot
  · rw [if_pos whole]
    simp [SpelledReturn, whole]
  · rw [if_neg whole]
    by_cases spelled : key.isReturn = true
    · have spelled' := isReturnSlot_iff.1 spelled
      rw [if_pos spelled]
      cases key.returnField?.bind o.returns.fieldPath? with
      | none => simp [spelled']
      | some t' => simp [spelled']
    · have plain : ¬ SpelledReturn key.slot := fun s => spelled (isReturnSlot_iff.2 s)
      simp only [if_neg spelled, Operation.declares_plain_iff plain]
      cases o.parameter? key.slot with
      | none => simp [plain]
      | some t' => simp

/-- A key belongs to at most one operation. -/
theorem Belongs.unique (h : Belongs r key o) {o' : Operation} (h' : Belongs r key o') : o = o' :=
  Option.some.inj (h.bind_eq.symm.trans h'.bind_eq)

/-- A key that belongs to an operation names one. -/
theorem Belongs.bound (h : Belongs r key o) : key.operation ≠ none := by
  obtain ⟨name, named, -⟩ := h
  simp [named]

/-! ## Filling in types -/

/-- The node that filling in leaves in the place of one. -/
inductive Fills (r : Registry) (key : SlotKey) (attrs : SlotAttrs) : SlotAttrs → Prop where
  /-- An overall input or output stays as it is. -/
  | boundary (bare : key.operation = none) : Fills r key attrs attrs
  /-- A slot gets its declared type, which must agree with one that it has already. -/
  | declared {o : Operation} {t : DataType} (belongs : Belongs r key o)
    (declares : o.Declares key.slot t)
    (agrees : ∀ found, attrs.datatype? = some found → found.unannotated == t.unannotated) :
    Fills r key attrs { attrs with datatype? := some t.unannotated }
  /-- A slot that is neither a parameter nor spelled like a return value stays as it is. -/
  | passed {o : Operation} (belongs : Belongs r key o) (plain : ¬ SpelledReturn key.slot)
    (undeclared : ∀ t, ¬ o.Declares key.slot t) : Fills r key attrs attrs

/-- An operation that a node is filled from is the one it belongs to. -/
theorem exists_belongs_of_declaredType (bound : key.operation ≠ none) {t : Option DataType}
    (h : declaredType r key = .ok t) : ∃ o, Belongs r key o := by
  obtain ⟨name, named⟩ := Option.ne_none_iff_exists'.1 bound
  unfold declaredType at h
  rw [named, Option.bind_some] at h
  cases registered : r.operation? name with
  | none =>
    rw [registered] at h
    simp at h
  | some o => exact ⟨o, name, named, registered⟩

/-- A node of a slot with a declared type is filled with that type, and with nothing else. -/
theorem fills_iff_of_declaredType (bound : key.operation ≠ none) {expected : DataType}
    (h : declaredType r key = .ok (some expected)) {attrs filled : SlotAttrs} :
    Fills r key attrs filled ↔ filled = { attrs with datatype? := some expected } ∧
      ∀ found, attrs.datatype? = some found → found.unannotated == expected := by
  constructor
  · intro fills
    cases fills with
    | boundary bare => exact absurd bare bound
    | declared belongs declares agrees =>
      rw [(declaredType_eq_some_iff belongs).2 ⟨_, declares, rfl⟩] at h
      rw [← Option.some.inj (Except.ok.inj h)]
      exact ⟨rfl, agrees⟩
    | passed belongs plain undeclared =>
      rw [(declaredType_eq_none_iff belongs).2 ⟨plain, undeclared⟩] at h
      simp at h
  · rintro ⟨rfl, agrees⟩
    obtain ⟨o, belongs⟩ := exists_belongs_of_declaredType bound h
    obtain ⟨t, declares, rfl⟩ := (declaredType_eq_some_iff belongs).1 h
    exact .declared belongs declares agrees

/-- What filling in does with a node. -/
theorem fillNode_eq_ok_iff {attrs : SlotAttrs} {node : SlotKey × SlotAttrs} :
    fillNode r (key, attrs) = .ok node ↔ ∃ filled, node = (key, filled) ∧ Fills r key attrs filled := by
  unfold fillNode
  simp only [SlotKey.isBoundary, Option.isNone_iff_eq_none]
  -- nodes at the ends stay as they are; any other one is asked what its operation declares
  by_cases bare : key.operation = none
  · rw [if_pos bare]
    constructor
    · intro e
      exact ⟨attrs, (Except.ok.inj e).symm, .boundary bare⟩
    · rintro ⟨filled, rfl, fills⟩
      cases fills with
      | boundary => rfl
      | declared belongs =>
        obtain ⟨name, named, -⟩ := belongs
        simp [bare] at named
      | passed belongs => rfl
  · rw [if_neg bare]
    cases declared : declaredType r key with
    | error fault =>
      constructor
      · intro e
        simp at e
      · rintro ⟨filled, rfl, fills⟩
        cases fills with
        | boundary bare' => exact absurd bare' bare
        | declared belongs declares =>
          rw [(declaredType_eq_some_iff belongs).2 ⟨_, declares, rfl⟩] at declared
          simp at declared
        | passed belongs plain undeclared =>
          rw [(declaredType_eq_none_iff belongs).2 ⟨plain, undeclared⟩] at declared
          simp at declared
    | ok found =>
      obtain ⟨o, belongs⟩ := exists_belongs_of_declaredType bare declared
      cases found with
      | none =>
        obtain ⟨plain, undeclared⟩ := (declaredType_eq_none_iff belongs).1 declared
        constructor
        · intro e
          exact ⟨attrs, (Except.ok.inj e).symm, .passed belongs plain undeclared⟩
        · rintro ⟨filled, rfl, fills⟩
          cases fills with
          | boundary => rfl
          | declared belongs' declares =>
            rw [(declaredType_eq_some_iff belongs').2 ⟨_, declares, rfl⟩] at declared
            simp at declared
          | passed => rfl
      | some expected =>
        simp only [fills_iff_of_declaredType bare declared]
        -- a declared type is filled in, or compared with the one that was given
        cases given : attrs.datatype? with
        | none =>
          constructor
          · intro e
            exact ⟨_, (Except.ok.inj e).symm, rfl, by simp⟩
          · rintro ⟨filled, rfl, rfl, -⟩
            rfl
        | some found =>
          simp only
          by_cases agrees : (found.unannotated == expected) = true
          · rw [if_pos agrees]
            constructor
            · intro e
              exact ⟨_, (Except.ok.inj e).symm, rfl, by simpa using agrees⟩
            · rintro ⟨filled, rfl, rfl, -⟩
              rfl
          · rw [if_neg agrees]
            constructor
            · intro e
              simp at e
            · rintro ⟨filled, rfl, rfl, all⟩
              exact absurd (all found rfl) agrees

/-- The node that filling in leaves in the place of another, with the same key. -/
def Refilled (r : Registry) (node filled : SlotKey × SlotAttrs) : Prop :=
  filled.1 = node.1 ∧ Fills r node.1 node.2 filled.2

/-- A graph after its types were filled in. -/
structure Filling (r : Registry) (g filled : PipelineGraph) : Prop where
  /-- The connections are the same. -/
  edges : filled.edges = g.edges
  /-- Each node is filled in its place. -/
  nodes : List.Forall₂ (Refilled r) g.nodes filled.nodes

/-- Turning all members of a list over succeeds exactly with the list of what they turn into. -/
theorem mapM_eq_ok_iff {ε α β : Type} {f : α → Except ε β} {l : List α} {l' : List β} :
    l.mapM f = .ok l' ↔ List.Forall₂ (fun a b => f a = .ok b) l l' := by
  induction l generalizing l' with
  | nil =>
    rw [List.mapM_nil, List.forall₂_nil_left_iff]
    exact ⟨fun e => (Except.ok.inj e).symm, fun e => e ▸ rfl⟩
  | cons a rest ih =>
    rw [List.mapM_cons, List.forall₂_cons_left_iff]
    -- the first failure ends it, so both the first member and the others have to succeed
    cases turned : f a with
    | error fault =>
      constructor
      · intro e
        cases e
      · rintro ⟨b, rest', e, -⟩
        cases e
    | ok b =>
      cases remaining : rest.mapM f with
      | error fault =>
        constructor
        · intro e
          cases e
        · rintro ⟨b', rest', -, all, -⟩
          rw [ih.2 all] at remaining
          cases remaining
      | ok rest' =>
        constructor
        · intro e
          exact ⟨b, rest', rfl, ih.1 remaining, (Except.ok.inj e).symm⟩
        · rintro ⟨b', rest'', e, all, rfl⟩
          rw [ih.2 all] at remaining
          cases e
          cases remaining
          rfl

/-- Every item has a result if all of them are mapped. -/
theorem exists_of_mapM_eq_ok {ε α β : Type} {f : α → Except ε β} {l : List α} {l' : List β}
    (h : l.mapM f = .ok l') {a : α} (m : a ∈ l) : ∃ b ∈ l', f a = .ok b := by
  have mapped := mapM_eq_ok_iff.1 h
  clear h
  induction mapped with
  | nil => cases m
  | cons first _ ih =>
    rcases List.mem_cons.1 m with rfl | m
    · exact ⟨_, List.mem_cons_self, first⟩
    · obtain ⟨b, m', e⟩ := ih m
      exact ⟨b, List.mem_cons_of_mem _ m', e⟩

/-- The members of a list that all members of another one turn into. -/
theorem mem_of_mapM_eq_ok {ε α β : Type} {f : α → Except ε β} {l : List α} {l' : List β}
    (h : l.mapM f = .ok l') {b : β} : b ∈ l' ↔ ∃ a ∈ l, f a = .ok b := by
  have turned := mapM_eq_ok_iff.1 h
  clear h
  induction turned with
  | nil => simp
  | @cons a b' rest rest' first _ ih =>
    simp [List.mem_cons, ih, first, eq_comm]

/-- Filling in succeeds exactly with the graph whose nodes are filled. -/
theorem fillTypes_eq_ok_iff {filled : PipelineGraph} :
    g.fillTypes r = .ok filled ↔ Filling r g filled := by
  have each : ∀ {nodes : List (SlotKey × SlotAttrs)},
      g.nodes.mapM (fillNode r) = .ok nodes ↔
        List.Forall₂ (Refilled r) g.nodes nodes := by
    intro nodes
    rw [mapM_eq_ok_iff]
    have same : (fun a b => fillNode r a = .ok b) = Refilled r := by
      funext a b
      refine propext (fillNode_eq_ok_iff.trans ⟨?_, ?_⟩)
      · rintro ⟨attrs, rfl, fills⟩
        exact ⟨rfl, fills⟩
      · rintro ⟨e, fills⟩
        exact ⟨b.2, Prod.ext e rfl, fills⟩
    rw [same]
  unfold fillTypes
  constructor
  · intro h
    cases turned : g.nodes.mapM (fillNode r) with
    | error fault =>
      rw [turned] at h
      cases h
    | ok nodes =>
      rw [turned] at h
      rw [← Except.ok.inj h]
      exact ⟨rfl, each.1 turned⟩
  · intro h
    rw [each.2 h.nodes, ← h.edges]
    rfl

/-- A graph can be filled exactly if each of its nodes can. -/
theorem exists_filling_iff :
    (∃ filled, Filling r g filled) ↔
      ∀ key attrs, (key, attrs) ∈ g.nodes → ∃ filled, Fills r key attrs filled := by
  constructor
  · rintro ⟨filled, -, nodes⟩ key attrs m
    obtain ⟨i, hi, e⟩ := List.getElem_of_mem m
    have fills := (nodes.get hi (nodes.length_eq ▸ hi)).2
    simp only [List.get_eq_getElem, e] at fills
    exact ⟨_, fills⟩
  · intro all
    suffices h : ∀ nodes : List (SlotKey × SlotAttrs), (∀ node ∈ nodes, node ∈ g.nodes) →
        ∃ nodes', List.Forall₂ (Refilled r) nodes nodes' by
      obtain ⟨nodes', h⟩ := h g.nodes fun _ => id
      exact ⟨⟨nodes', g.edges⟩, rfl, h⟩
    intro nodes within
    induction nodes with
    | nil => exact ⟨[], .nil⟩
    | cons node rest ih =>
      obtain ⟨rest', h⟩ := ih fun node m => within node (List.mem_cons_of_mem _ m)
      obtain ⟨filled, fills⟩ := all node.1 node.2 (within node List.mem_cons_self)
      exact ⟨(node.1, filled) :: rest', .cons ⟨rfl, fills⟩ h⟩

namespace Filling

variable {filled : PipelineGraph}

/-- Filling in keeps the keys. -/
theorem keys (h : Filling r g filled) : filled.keys = g.keys := by
  unfold PipelineGraph.keys Keyed.keys
  have nodes := h.nodes
  generalize g.nodes = before at nodes
  generalize filled.nodes = after at nodes
  induction nodes with
  | nil => rfl
  | cons first _ ih => rw [List.map_cons, List.map_cons, first.1, ih]

/-- The groups of keys stay the same. -/
theorem groups (h : Filling r g filled) : filled.groups = g.groups := by
  unfold PipelineGraph.groups
  rw [h.keys]

/-- A filled sound graph is sound. -/
theorem sound (h : Filling r g filled) (s : Sound g) : Sound filled where
  sorted := by
    apply Keyed.Sorted.of_keys
    have keys := h.keys
    unfold PipelineGraph.keys at keys
    rw [keys]
    exact s.keys
  ends := by
    rw [h.edges, h.keys]
    exact s.ends
  once := h.edges ▸ s.once

/-- A filled node stands for a node that was there. -/
theorem exists_of_mem (h : Filling r g filled) {attrs : SlotAttrs} (m : (key, attrs) ∈ filled.nodes) :
    ∃ before, (key, before) ∈ g.nodes ∧ Fills r key before attrs := by
  have nodes := h.nodes
  generalize g.nodes = before at nodes
  generalize filled.nodes = after at nodes m
  induction nodes with
  | nil => simp at m
  | @cons a b rest rest' first _ ih =>
    rcases List.mem_cons.1 m with rfl | m
    · obtain ⟨e, fills⟩ := first
      obtain ⟨key', before⟩ := a
      obtain rfl : key = key' := e
      exact ⟨before, List.mem_cons_self, fills⟩
    · obtain ⟨before, there, fills⟩ := ih m
      exact ⟨before, List.mem_cons_of_mem _ there, fills⟩

/-- Every node that was there is filled. -/
theorem exists_filled (h : Filling r g filled) {attrs : SlotAttrs} (m : (key, attrs) ∈ g.nodes) :
    ∃ after, (key, after) ∈ filled.nodes ∧ Fills r key attrs after := by
  have nodes := h.nodes
  generalize g.nodes = before at nodes m
  generalize filled.nodes = after at nodes
  induction nodes with
  | nil => simp at m
  | @cons a b rest rest' first _ ih =>
    rcases List.mem_cons.1 m with rfl | m
    · obtain ⟨e, fills⟩ := first
      obtain ⟨key', after⟩ := b
      obtain rfl : key' = key := e
      exact ⟨after, List.mem_cons_self, fills⟩
    · obtain ⟨after, there, fills⟩ := ih m
      exact ⟨after, List.mem_cons_of_mem _ there, fills⟩

end Filling

/-- Filling in keeps the literal of a node. -/
theorem Fills.fixed? {attrs filled : SlotAttrs} (h : Fills r key attrs filled) :
    filled.fixed? = attrs.fixed? := by
  cases h with
  | boundary => rfl
  | declared => rfl
  | passed => rfl

/-- Filling in types keeps the literals. -/
theorem Filling.fixed?_eq (h : Filling r g filled) (key : SlotKey) :
    filled.fixed? key = g.fixed? key := by
  unfold fixed? attrs?
  have nodes := h.nodes
  generalize g.nodes = before at nodes
  generalize filled.nodes = after at nodes
  induction nodes with
  | nil => rfl
  | cons first _ ih =>
    obtain ⟨same, fills⟩ := first
    rw [Keyed.lookup_cons, Keyed.lookup_cons, same]
    split
    · exact fills.fixed?
    · exact ih

/-! ## Types of filled graphs -/

/-- Every slot of an operation has a declared type. -/
def Declared (g : PipelineGraph) (r : Registry) : Prop :=
  ∀ key ∈ g.keys, ∀ o, Belongs r key o → ∃ t, o.Declares key.slot t

/-- If every slot has a declared type, the types of a filled graph are those of the graph. -/
theorem Filling.datatype?_eq_some_iff {filled : PipelineGraph} (h : Filling r g filled)
    (s : Sound g) (d : Declared g r) {t : DataType} :
    filled.datatype? key = some t ↔ g.HasType r key t := by
  have found : ∀ {attrs}, filled.attrs? key = some attrs ↔ (key, attrs) ∈ filled.nodes :=
    (h.sound s).attrs?_eq_some_iff
  unfold datatype?
  rw [Option.bind_eq_some_iff]
  constructor
  -- what a filled node holds it was given, or its operation declares it
  · rintro ⟨attrs, m, typed⟩
    obtain ⟨before, there, fills⟩ := h.exists_of_mem (found.1 m)
    have within : key ∈ g.keys := List.mem_map_of_mem there
    cases fills with
    | boundary bare => exact .given there bare typed
    | declared belongs declares agrees =>
      rw [← Option.some.inj typed]
      exact .declared within belongs declares
    | passed belongs plain undeclared =>
      -- every slot has a declared type here, so none is passed over
      obtain ⟨t, declares⟩ := d key within _ belongs
      exact absurd declares (undeclared t)
  · intro typed
    cases typed with
    | given there bare typed =>
      obtain ⟨after, m, fills⟩ := h.exists_filled there
      refine ⟨after, found.2 m, ?_⟩
      cases fills with
      | boundary => exact typed
      | declared belongs =>
        obtain ⟨name, named, -⟩ := belongs
        simp [bare] at named
      | passed => exact typed
    | @declared o t within belongs declares =>
      obtain ⟨node, there, rfl⟩ := List.mem_map.1 within
      obtain ⟨after, m, fills⟩ := h.exists_filled there
      refine ⟨after, found.2 m, ?_⟩
      have type := (declaredType_eq_some_iff belongs).2 ⟨t, declares, rfl⟩
      rw [((fills_iff_of_declaredType belongs.bound type).1 fills).1]

/-- The same for what a node of the filled graph holds. -/
theorem Filling.datatype?_eq_some_iff_of_mem {filled : PipelineGraph} (h : Filling r g filled)
    (s : Sound g) (d : Declared g r) {attrs : SlotAttrs} (m : (key, attrs) ∈ filled.nodes)
    {t : DataType} : attrs.datatype? = some t ↔ g.HasType r key t := by
  rw [← h.datatype?_eq_some_iff s d]
  unfold datatype?
  rw [(h.sound s).attrs?_eq_some_iff.2 m, Option.bind_some]

end PipelineGraph

end Pipewright
