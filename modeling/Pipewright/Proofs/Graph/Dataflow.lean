import Pipewright.Host.Operators
import Pipewright.Proofs.Graph.Wired

/-! # What a pipeline computes
The meaning of a graph without any program: which value each slot carries when overall inputs and
the results of steps are known, with which arguments the operation of a step is called, and what
comes of calling the operations of steps one after another. -/

namespace Pipewright

/-! ## Fields -/

/-- What is found when fields are followed one after another. -/
def Datum.fields? : Datum → List String → Option Datum
  | d, [] => some d
  | d, name :: path => (d.field? name).bind fun inner => inner.fields? path

/-- A field of a map is its entry. -/
theorem Datum.fields?_map {entries : Entries} {name : String} {d : Datum}
    (there : Keyed.lookup name entries = some d) (path : List String) :
    (Datum.map entries).fields? (name :: path) = d.fields? path := by
  rw [Datum.fields?, Datum.field?, there]
  rfl

/-! ## Values that fit a type -/

mutual

/-- A value has the packs of a type: it is a map with the fields of the pack, at any depth of packs
within packs. What has to hold where the type is a node is given. -/
def Datum.Fits (atNode : Datum → Prop) : DataType → Datum → Prop
  | .annotated inner _, d => Datum.Fits atNode inner d
  | .node _, d => atNode d
  | .pack _ fields, d => ∃ entries, d = .map entries ∧ Datum.FitsFields atNode fields entries
  | _, _ => True

/-- A map has the fields of a pack. -/
def Datum.FitsFields (atNode : Datum → Prop) : List (String × DataType) → Entries → Prop
  | [], _ => True
  | (name, t) :: fields, entries =>
    (∃ d, Keyed.lookup name entries = some d ∧ Datum.Fits atNode t d) ∧
      Datum.FitsFields atNode fields entries

end

namespace Datum

mutual

/-- A value has the packs of a type also if less has to hold where the type is a node. -/
theorem Fits.imp {p q : Datum → Prop} (less : ∀ d, p d → q d) :
    (t : DataType) → {d : Datum} → Fits p t d → Fits q t d
  | .annotated inner _, _, h => by
    unfold Fits at h ⊢
    exact Fits.imp less inner h
  | .node _, d, h => less d h
  | .pack _ fields, _, h => by
    obtain ⟨entries, rfl, fits⟩ := h
    exact ⟨entries, rfl, FitsFields.imp less fields fits⟩
  | .unit, _, _ => trivial
  | .int, _, _ => trivial
  | .float, _, _ => trivial
  | .str, _, _ => trivial
  | .bool, _, _ => trivial
  | .progress, _, _ => trivial
  | .list _, _, _ => trivial
  | .dict _ _, _, _ => trivial
  | .tuple _, _, _ => trivial
  | .external _, _, _ => trivial

/-- So has a map the fields of a pack. -/
theorem FitsFields.imp {p q : Datum → Prop} (less : ∀ d, p d → q d) :
    (fields : List (String × DataType)) → {entries : Entries} → FitsFields p fields entries →
      FitsFields q fields entries
  | [], _, _ => trivial
  | (_, t) :: fields, _, ⟨⟨d, there, fits⟩, others⟩ =>
    ⟨⟨d, there, Fits.imp less t fits⟩, FitsFields.imp less fields others⟩

end

variable {atNode : Datum → Prop} {t t' : DataType} {d : Datum}

/-- Annotations do not matter. -/
theorem fits_unannotated_iff : Fits atNode t.unannotated d ↔ Fits atNode t d := by
  fun_induction DataType.unannotated t with
  | case1 inner as ih =>
    rw [ih, Fits]
  | case2 t plain => exact Iff.rfl

/-- What is fit for the type of managed nodes is what is fit for the place of a node. -/
theorem fits_iff_of_isManaged (managed : t.isManaged = true) : Fits atNode t d ↔ atNode d := by
  rw [← fits_unannotated_iff]
  unfold DataType.isManaged DataType.nodeClass? at managed
  split at managed
  · next c e => rw [e, Fits]
  · cases managed

/-- A map with the fields of a pack has each of them. -/
theorem FitsFields.exists_lookup {fields : List (String × DataType)} {entries : Entries}
    (h : FitsFields atNode fields entries) {name : String} (m : (name, t) ∈ fields) :
    ∃ d, Keyed.lookup name entries = some d ∧ Fits atNode t d := by
  induction fields with
  | nil => cases m
  | cons field fields ih =>
    obtain ⟨name', t''⟩ := field
    rcases List.mem_cons.1 m with e | m
    · cases e
      exact h.1
    · exact ih h.2 m

/-- A value that fits a type with a field is a map with that field. -/
theorem Fits.exists_field {name : String} (h : Fits atNode t d) (found : t.field? name = some t') :
    ∃ entries part, d = .map entries ∧ Keyed.lookup name entries = some part ∧
      Fits atNode t' part := by
  unfold DataType.field? at found
  split at found
  · next pack fields e =>
    have plain : t.unannotated = .pack pack fields := by
      unfold DataType.pack? at e
      split at e
      · next name' fields' e' =>
        cases e
        exact e'
      · cases e
    rw [← fits_unannotated_iff, plain] at h
    obtain ⟨entries, rfl, fits⟩ := h
    obtain ⟨part, there, fits'⟩ := fits.exists_lookup (Keyed.mem_of_lookup found)
    exact ⟨entries, part, rfl, there, fits'⟩
  · cases found

/-- A value that fits a type has everything to which fields of packs lead in the type. -/
theorem Fits.exists_fields? {path : List String} (h : Fits atNode t d)
    (leads : t.resolve? path = some t') :
    ∃ part, d.fields? path = some part ∧ Fits atNode t' part := by
  induction path generalizing t d with
  | nil =>
    cases leads
    exact ⟨d, rfl, h⟩
  | cons name path ih =>
    unfold DataType.resolve? at leads
    split at leads
    · next inner found =>
      obtain ⟨entries, d', rfl, there, fits⟩ := h.exists_field found
      obtain ⟨part, reached, fits'⟩ := ih fits leads
      exact ⟨part, (fields?_map there path).trans reached, fits'⟩
    · cases leads

end Datum

/-! ## Return values -/

/-- The names of the fields that lead from a return value to the slot. -/
def SlotKey.returnPath (key : SlotKey) : List String :=
  (key.returnField?.map DataType.splitPath).getD []

/-- The path of a return value leads to its declared type. -/
theorem Operation.Declares.resolve? {o : Operation} {key : SlotKey} {t : DataType}
    (h : o.Declares key.slot t) (spelled : SpelledReturn key.slot) :
    o.returns.resolve? key.returnPath = some t := by
  unfold SlotKey.returnPath
  by_cases whole : key.slot = returnSlot
  · rw [whole, declares_returnSlot_iff] at h
    have none : key.returnField? = none := by
      cases e : key.returnField? with
      | none => rfl
      | some path =>
        have dotted := (SlotKey.returnField?_eq_some_iff.1 e).2
        rw [whole] at dotted
        exact absurd dotted.symm (returnSlot_dot_ne path)
    rw [none, h]
    rfl
  · obtain ⟨path, e, leads⟩ := Option.bind_eq_some_iff.1 ((declares_field_iff whole spelled).1 h)
    rw [e]
    exact leads

/-! ## Values that slots carry -/

namespace PipelineGraph

/-- A slot without a literal is fed by another one. -/
def FedBy (g : PipelineGraph) (key source : SlotKey) : Prop :=
  g.fixed? key = none ∧ g.producer? key = some source

section Carries

variable (g : PipelineGraph) (read : Value → Option Datum) (inputs : List (SlotKey × Datum))
  (results : List (Nat × Datum))

/-- The values that slots carry: a literal, an overall input, the result of a step or a field of
it, or what another slot carries. A function says which value a literal stands for. -/
inductive Carries : SlotKey → Datum → Prop where
  /-- A slot with a literal carries what the literal stands for. -/
  | literal {key : SlotKey} {v : Value} {d : Datum} (fixed : g.fixed? key = some v)
    (stands : read v = some d) : Carries key d
  /-- A slot that an overall input feeds carries the input. -/
  | input {key source : SlotKey} {d : Datum} (fed : g.FedBy key source)
    (boundary : source.operation = none) (given : Keyed.lookup source inputs = some d) :
    Carries key d
  /-- A slot that a return value feeds carries the result of the step, or a field of it. -/
  | result {key source : SlotKey} {d part : Datum} (fed : g.FedBy key source)
    (bound : source.operation ≠ none) (isReturn : source.isReturn = true)
    (returned : Keyed.lookup source.step results = some d)
    (leads : d.fields? source.returnPath = some part) : Carries key part
  /-- A slot that a parameter feeds carries what the parameter carries. -/
  | forwarded {key source : SlotKey} {d : Datum} (fed : g.FedBy key source)
    (bound : source.operation ≠ none) (plain : source.isReturn = false)
    (carried : Carries source d) : Carries key d

variable {g read inputs results}

variable {key source : SlotKey} {d : Datum}

/-- What a slot with a literal carries. -/
theorem carries_literal_iff {v : Value} (fixed : g.fixed? key = some v) :
    g.Carries read inputs results key d ↔ read v = some d := by
  constructor
  · intro h
    cases h with
    | literal fixed' stands =>
      cases fixed.symm.trans fixed'
      exact stands
    | input fed => cases fixed.symm.trans fed.1
    | result fed => cases fixed.symm.trans fed.1
    | forwarded fed => cases fixed.symm.trans fed.1
  · exact .literal fixed

/-- What a slot that another one feeds carries. -/
theorem FedBy.carries_iff (fed : g.FedBy key source) :
    g.Carries read inputs results key d ↔
      if source.operation = none then Keyed.lookup source inputs = some d
      else if source.isReturn then
        (Keyed.lookup source.step results).bind (fun d => d.fields? source.returnPath) = some d
      else g.Carries read inputs results source d := by
  -- no other slot feeds it, so each way to carry a value is one of the three
  have one : ∀ {other}, g.FedBy key other → other = source :=
    fun fed' => Option.some.inj (fed'.2.symm.trans fed.2)
  constructor
  · intro h
    cases h with
    | literal fixed => cases fed.1.symm.trans fixed
    | input fed' boundary given =>
      rw [one fed'] at boundary given
      rw [if_pos boundary]
      exact given
    | result fed' bound isReturn returned leads =>
      rw [one fed'] at bound isReturn returned leads
      rw [if_neg bound, if_pos isReturn, returned]
      exact leads
    | forwarded fed' bound plain carried =>
      rw [one fed'] at bound plain carried
      rw [if_neg bound, if_neg (by simp [plain])]
      exact carried
  · intro h
    split at h
    · next boundary => exact .input fed boundary h
    · next bound =>
      split at h
      · next isReturn =>
        obtain ⟨d', returned, leads⟩ := Option.bind_eq_some_iff.1 h
        exact .result fed bound isReturn returned leads
      · next plain => exact .forwarded fed bound (by simpa using plain) h

/-- A slot carries one value. -/
theorem Carries.unique {d' : Datum} (h : g.Carries read inputs results key d)
    (h' : g.Carries read inputs results key d') : d = d' := by
  induction h with
  | literal fixed stands =>
    rw [carries_literal_iff fixed] at h'
    exact Option.some.inj (stands.symm.trans h')
  | input fed boundary given =>
    rw [fed.carries_iff, if_pos boundary] at h'
    exact Option.some.inj (given.symm.trans h')
  | result fed bound isReturn returned leads =>
    rw [fed.carries_iff, if_neg bound, if_pos isReturn, returned] at h'
    exact Option.some.inj (leads.symm.trans h')
  | forwarded fed bound plain carried ih =>
    rw [fed.carries_iff, if_neg bound, if_neg (by simp [plain])] at h'
    exact ih h'

/-- In a wired graph every slot that takes a value carries one, if literals stand for values, inputs
are given and the steps before have results with the packs of their types. -/
theorem Wired.exists_carries {r : Registry} (w : g.Wired r)
    (literals : ∀ key v, g.fixed? key = some v → ∃ d, read v = some d)
    (given : ∀ key ∈ g.keys, key.step = 0 → ∃ d, Keyed.lookup key inputs = some d) {bound : Nat}
    (returned : ∀ i o, i < bound → g.OperationAt r i o →
      ∃ d, Keyed.lookup i results = some d ∧ Datum.Fits (fun _ => True) o.returns d)
    {key : SlotKey} (m : key ∈ g.keys) (inner : key.step ≠ 0) (plain : ¬ SpelledReturn key.slot)
    (le : key.step ≤ bound) : ∃ d, g.Carries read inputs results key d := by
  -- a connection leads to an earlier step or to a parameter before, so the steps descend
  induction step : key.step using Nat.strongRecOn generalizing key with
  | ind n ih =>
    subst step
    cases fixed : g.fixed? key with
    | some v =>
      obtain ⟨d, stands⟩ := literals key v fixed
      exact ⟨d, .literal fixed stands⟩
    | none =>
      obtain ⟨source, producer⟩ := w.fed key m inner plain fixed
      have fed : g.FedBy key source := ⟨fixed, producer⟩
      obtain ⟨there, -, before⟩ := w.earlier producer
      by_cases boundary : source.operation = none
      · obtain ⟨d, found⟩ := given source there (w.source_input producer boundary)
        exact ⟨d, .input fed boundary found⟩
      · obtain ⟨first, -, o, belongs⟩ := w.inner_of_bound there boundary
        cases isReturn : source.isReturn with
        -- a parameter hands on what it carries itself
        | false =>
          have plain' : ¬ SpelledReturn source.slot := SlotKey.isReturn_eq_false_iff.1 isReturn
          obtain ⟨d, carried⟩ := ih source.step before there (by omega) plain' (by omega) rfl
          exact ⟨d, .forwarded fed boundary isReturn carried⟩
        -- a return value is a part of the result of its step
        | true =>
          have spelled : SpelledReturn source.slot := isReturnSlot_iff.1 isReturn
          obtain ⟨t, declares⟩ := w.returns_resolve source there o belongs spelled
          obtain ⟨d, result, fits⟩ := returned source.step o (by omega) ⟨source, there, rfl, belongs⟩
          obtain ⟨part, reached, -⟩ := fits.exists_fields? (declares.resolve? spelled)
          exact ⟨part, .result fed boundary isReturn result reached⟩

end Carries

/-- What a pipeline returns: what its one output carries, or a map of what its outputs carry, each
under the name of the output. -/
inductive Returns (g : PipelineGraph) (read : Value → Option Datum)
    (inputs : List (SlotKey × Datum)) (results : List (Nat × Datum)) : Datum → Prop where
  /-- There is one output. -/
  | single {key : SlotKey} {d : Datum} (only : g.keysAt g.lastStep = [key])
    (carried : g.Carries read inputs results key d) : Returns g read inputs results d
  /-- There are several outputs. -/
  | several {entries : Entries} (more : 1 < (g.keysAt g.lastStep).length)
    (sorted : Keyed.Sorted entries)
    (names : ∀ name, name ∈ Keyed.keys entries ↔
      name ∈ (g.keysAt g.lastStep).map SlotKey.slot)
    (carried : ∀ key ∈ g.keysAt g.lastStep, ∃ d, Keyed.lookup key.slot entries = some d ∧
      g.Carries read inputs results key d) : Returns g read inputs results (.map entries)

/-! ## Calls of operations -/

/-- The callback that the operation of a step reports to, and the board on which it is known. -/
def subCallback (g : PipelineGraph) (w : World) (callback : Progress.Callback) (step : Nat) :
    Progress.Callback × Progress.Board Float :=
  w.board.addSub callback (Int64.ofNat (step - 1)).toInt (Int64.ofNat g.pieces).toInt

section Execution

variable (g : PipelineGraph) (r : Registry) (read : Value → Option Datum)
  (inputs : List (SlotKey × Datum)) (callback : Progress.Callback)

/-- The arguments with which the operation of a step is called: one for each parameter, which is
what the parameter's slot carries, and a callback of its own for the parameter that takes one. -/
structure CallArguments (results : List (Nat × Datum)) (step : Nat) (o : Operation) (w : World)
    (arguments : Entries) : Prop where
  /-- The arguments are in the order of their names. -/
  sorted : Keyed.Sorted arguments
  /-- There are arguments for exactly the parameters. -/
  names : ∀ name, name ∈ Keyed.keys arguments ↔
    name ∈ Keyed.keys o.parameters ∨ o.progress? = some name
  /-- A wired parameter gets what its slot carries. -/
  carried : ∀ name ∈ Keyed.keys o.parameters, ∃ d, Keyed.lookup name arguments = some d ∧
    g.Carries read inputs results (.parameter step o.name name) d
  /-- The progress parameter gets a callback for the step's piece of the work. -/
  progress : ∀ name, o.progress? = some name →
    Keyed.lookup name arguments = some (.progress (g.subCallback w callback step).1)

/-- The world in which the operation of a step is called: its start is reported, and its callback is
known if it takes one. -/
def callWorld (w : World) (step : Nat) (o : Operation) : World :=
  let reported := w.report callback o.name 0 (Int64.ofNat (step - 1)) (Int64.ofNat g.pieces)
  match o.progress? with
  | none => reported
  | some _ => { reported with board := (g.subCallback reported callback step).2 }

/-- How the operations of some steps end: with the results so far, the latest first, and with the
message of the operation that failed, if one did. -/
structure Ending where
  /-- The results by step. -/
  results : List (Nat × Datum)
  /-- The message of a failure. -/
  failure? : Option String

/-- The operations of steps are called one after another, each with what its slots carry, until one
fails or there are no more. -/
inductive Executes : List Nat → List (Nat × Datum) → World → Ending → World → Prop where
  /-- There are no more steps. -/
  | done {results : List (Nat × Datum)} {w : World} : Executes [] results w ⟨results, none⟩ w
  /-- The operation of a step succeeds. -/
  | step {i : Nat} {rest : List Nat} {results : List (Nat × Datum)} {w w' w'' : World}
    {o : Operation} {arguments : Entries} {d : Datum} {e : Ending} (at' : g.OperationAt r i o)
    (called : g.CallArguments read inputs callback results i o
      (w.report callback o.name 0 (Int64.ofNat (i - 1)) (Int64.ofNat g.pieces)) arguments)
    (succeeds : (o.call arguments).run.run (g.callWorld callback w i o) = (.ok d, w'))
    (others : Executes rest ((i, d) :: results) w' e w'') : Executes (i :: rest) results w e w''
  /-- The operation of a step fails. -/
  | failed {i : Nat} {rest : List Nat} {results : List (Nat × Datum)} {w w' : World}
    {o : Operation} {arguments : Entries} {e : OperationError} (at' : g.OperationAt r i o)
    (called : g.CallArguments read inputs callback results i o
      (w.report callback o.name 0 (Int64.ofNat (i - 1)) (Int64.ofNat g.pieces)) arguments)
    (fails : (o.call arguments).run.run (g.callWorld callback w i o) = (.error e, w')) :
    Executes (i :: rest) results w ⟨results, some (o.name ++ ": " ++ e.message)⟩ w'

variable {g r read inputs callback}

/-- There is one way to call the operation of a step. -/
theorem CallArguments.unique {results : List (Nat × Datum)} {step : Nat} {o : Operation} {w : World}
    {arguments arguments' : Entries}
    (h : g.CallArguments read inputs callback results step o w arguments)
    (h' : g.CallArguments read inputs callback results step o w arguments') :
    arguments = arguments' := by
  refine h.sorted.ext String.lt_irrefl String.lt_trans h'.sorted fun name => ?_
  by_cases wired : name ∈ Keyed.keys o.parameters
  · obtain ⟨d, found, carried⟩ := h.carried name wired
    obtain ⟨d', found', carried'⟩ := h'.carried name wired
    rw [found, found', carried.unique carried']
  · by_cases progress : o.progress? = some name
    · rw [h.progress name progress, h'.progress name progress]
    · have absent : ¬ (name ∈ Keyed.keys o.parameters ∨ o.progress? = some name) :=
        not_or.2 ⟨wired, progress⟩
      rw [Keyed.lookup_eq_none_iff.2 fun m => absent ((h.names name).1 m),
        Keyed.lookup_eq_none_iff.2 fun m => absent ((h'.names name).1 m)]

/-- Calling the operations of steps one after another comes to one ending. -/
theorem Executes.unique (w : g.Wired r) {steps : List Nat} {results : List (Nat × Datum)}
    {before after after' : World} {e e' : Ending}
    (h : g.Executes r read inputs callback steps results before e after)
    (h' : g.Executes r read inputs callback steps results before e' after') :
    e = e' ∧ after = after' := by
  -- at each step there is one operation, which is called once and either succeeds or fails
  induction h with
  | done =>
    cases h'
    exact ⟨rfl, rfl⟩
  | step at' called succeeds others ih =>
    cases h' with
    | step at'' called' succeeds' others' =>
      cases w.operationAt_unique at' at''
      cases called.unique called'
      cases succeeds.symm.trans succeeds'
      exact ih others'
    | failed at'' called' fails =>
      cases w.operationAt_unique at' at''
      cases called.unique called'
      cases succeeds.symm.trans fails
  | failed at' called fails =>
    cases h' with
    | step at'' called' succeeds others =>
      cases w.operationAt_unique at' at''
      cases called.unique called'
      cases succeeds.symm.trans fails
    | failed at'' called' fails' =>
      cases w.operationAt_unique at' at''
      cases called.unique called'
      cases fails.symm.trans fails'
      exact ⟨rfl, rfl⟩

end Execution

end PipelineGraph

end Pipewright
