import Pipewright.Proofs.DataType.Layers
import Pipewright.Proofs.Graph.Typed
import Pipewright.Proofs.Unit.Places

/-! # Types of bindings
What a slot is bound to is of a type that the slot accepts, however many parameters in between hand
it on. -/

namespace Pipewright.PipelineGraph

variable {g : PipelineGraph} {r : Registry} {key : SlotKey} {t : DataType} {b : Binding}

/-- The types that are declared at the places to which return values and overall inputs lead. -/
inductive PlaceType (g : PipelineGraph) (r : Registry) : Access → DataType → Prop where
  /-- The variable of an overall input has its type. -/
  | input {key : SlotKey} {t : DataType} (there : key ∈ g.keys) (first : key.step = 0)
    (typed : g.datatype? key = some t) : PlaceType g r (.whole key.slot) t
  /-- A place in the result of a step has the type to which its path leads in what the operation of
  the step returns. -/
  | result {key : SlotKey} {o : Operation} {t : DataType} (there : key ∈ g.keys)
    (belongs : Belongs r key o) (spelled : SpelledReturn key.slot)
    (leads : o.returns.resolve? key.returnPath = some t) :
    PlaceType g r ⟨g.stepVariable key.step, key.returnPath⟩ t

/-- A slot of a type may get its value from a binding: a literal conforms to the type, and what is
declared at a place is accepted. -/
inductive Suits (g : PipelineGraph) (r : Registry) (t : DataType) : Binding → Prop where
  /-- A literal conforms to the type. -/
  | literal {v : Value} (conforms : v.conformsTo t = true) : Suits g r t (.literal v)
  /-- The type that is declared at the place is accepted. -/
  | access {a : Access} {s : DataType} (declared : g.PlaceType r a s) (accepts : t.accepts s = true) :
    Suits g r t (.access a)

/-- What suits a slot without outer annotations suits it with them. -/
theorem Suits.annotated (h : g.Suits r t.unannotated b) : g.Suits r t b := by
  cases h with
  | literal conforms => exact .literal (by rwa [Value.conformsTo_unannotated] at conforms)
  | access declared accepts => exact .access declared (by rwa [DataType.unannotated_accepts] at accepts)

/-- The type that is declared at a place is that of a node, but for outer annotations. -/
theorem PlaceType.exists_node (w : g.Wired r) (types : g.Typed r) {a : Access}
    (h : g.PlaceType r a t) :
    ∃ key s, g.datatype? key = some s ∧ s.unannotated = t.unannotated := by
  cases h with
  | input there first typed => exact ⟨_, _, typed, rfl⟩
  | @result key o _ there belongs spelled leads =>
    obtain ⟨t', declares⟩ := w.returns_resolve key there o belongs spelled
    cases leads.symm.trans (declares.resolve? spelled)
    exact ⟨key, _, types.declared key there o belongs t declares, t.unannotated_unannotated⟩

/-- What suits a slot suits every slot that accepts that one, if the names of classes tell their
ancestries. -/
theorem Suits.accepted (w : g.Wired r) (types : g.Typed r) (coherent : NodeClass.Coherent g.classes)
    (h : g.Suits r t b) (typed : g.datatype? key = some t) {u : DataType}
    (accepts : u.accepts t = true) : g.Suits r u b := by
  cases h with
  | literal conforms => exact .literal (Value.conformsTo_of_accepts accepts conforms)
  | @access a s declared accepts' =>
    refine .access declared (DataType.accepts_trans (fun c middle e e' x m named => ?_) accepts
      accepts')
    obtain ⟨node, s', typed', same⟩ := declared.exists_node w types
    exact coherent c (mem_classes w.sound typed' (same.trans e)) middle
      (mem_classes w.sound typed e') x m middle middle.mem_lineage_self named

/-- A slot is bound to what suits it, through any number of parameters that hand it on. -/
theorem Typed.suits_of_binding (types : g.Typed r) (w : g.Wired r)
    (coherent : NodeClass.Coherent g.classes) (bound : g.binding key = .ok b)
    (typed : g.datatype? key = some t) : g.Suits r t b := by
  -- the type that suits changes where a parameter hands on, so the induction is for any type
  fun_induction g.binding key generalizing t with
  | case1 key v fixed =>
    cases bound
    obtain ⟨t', typed', conforms⟩ := types.literal key v fixed
    cases typed.symm.trans typed'
    exact .literal conforms
  | case2 => cases bound
  | case3 key fixed source producer boundary =>
    cases bound
    obtain ⟨s, t', typed', typed'', accepts⟩ := types.accepts_producer producer
    cases typed.symm.trans typed''
    exact .access (.input (w.earlier producer).1 (w.source_input producer boundary) typed') accepts
  | case4 key fixed source producer operation named isReturn =>
    cases bound
    obtain ⟨s, t', typed', typed'', accepts⟩ := types.accepts_producer producer
    cases typed.symm.trans typed''
    have there := (w.earlier producer).1
    obtain ⟨-, -, o, belongs⟩ := w.inner_of_bound there (by simp [named])
    have spelled := isReturnSlot_iff.1 isReturn
    obtain ⟨declared, declares⟩ := w.returns_resolve source there o belongs spelled
    cases typed'.symm.trans (types.declared source there o belongs declared declares)
    rw [← w.stepVariable_eq there named]
    exact .access (.result there belongs spelled (declares.resolve? spelled))
      ((DataType.accepts_unannotated _ _).symm.trans accepts)
  | case5 key fixed source producer operation named plain before ih =>
    obtain ⟨s, t', typed', typed'', accepts⟩ := types.accepts_producer producer
    cases typed.symm.trans typed''
    exact (ih bound typed').accepted w types coherent typed' accepts
  | case6 => cases bound

/-- Bindings are of fitting types from end to end. If the names of classes tell their ancestries,
every node is bound to what suits its type, if it is bound at all, and every parameter of the
operation of a step to what suits the parameter's declared type. -/
theorem suits_of_validate (h : g.Built) (built : r.Built) {p : ValidatedPipeline}
    (e : g.validate r = .ok p) (coherent : NodeClass.Coherent p.graph.classes) :
    (∀ key ∈ p.graph.keys, ∃ t, p.graph.datatype? key = some t ∧
      ∀ b, p.graph.binding key = .ok b → p.graph.Suits r t b) ∧
    ∀ i o, p.graph.OperationAt r i o → ∀ name t, o.parameter? name = some t →
      ∀ b, p.graph.binding (.parameter i o.name name) = .ok b → p.graph.Suits r t b := by
  have w := wired_of_validate h e
  have types := typed_of_validate h e
  refine ⟨fun key m => ?_, fun i o at' name t found b bound => ?_⟩
  · obtain ⟨t, typed⟩ := types.typed key m
    exact ⟨t, typed, fun b bound => types.suits_of_binding w coherent bound typed⟩
  · obtain ⟨there, plain⟩ := w.parameter_mem built at'
      (List.mem_map_of_mem (Keyed.mem_of_lookup found))
    have belongs : Belongs r (.parameter i o.name name) o := by
      obtain ⟨key, m, rfl, operation, named, registered⟩ := at'
      rw [(built.sound registered).1]
      exact ⟨operation, rfl, registered⟩
    exact (types.suits_of_binding w coherent bound
      (types.declared _ there o belongs t (.parameter plain found))).annotated

/-- A class of shapes. -/
def shape : NodeClass := .derived "Shape" .root

/-- A class of shapes that are circles. -/
def circle : NodeClass := .derived "Circle" shape

/-- Drawing a circle around a shape. -/
def encircling : Registration where
  name := "encircle"
  signature := ⟨[("around", some (.node shape))],
    some (.pack "Drawn" [("circle", .node circle), ("strokes", .int)])⟩
  dependencies := []
  categories := []
  implementation c := do
    let around ← c.node "around"
    return .map (Keyed.ofList [("circle", .node around), ("strokes", .int 1)])

/-- Halving a size. -/
def halving : Registration where
  name := "halve"
  signature := ⟨[("size", some .float)], some .float⟩
  dependencies := []
  categories := []
  implementation c := do
    let size ← c.float "size"
    return .float (size / 2)

/-- The registry in which circles can be drawn and sizes be halved. -/
def drawings : Registry :=
  ⟨[("encircle", ⟨"encircle", [("around", .node shape)],
      .pack "Drawn" [("circle", .node circle), ("strokes", .int)], none, [], [],
      encircling.implementation⟩),
    ("halve", ⟨"halve", [("size", .float)], .float, none, [], [], halving.implementation⟩)]⟩

/-- A circle is drawn around a circle, a second one around the same one, and a whole number is taken
for a size, which is returned as it was before it is halved. -/
def encircledTwice : PipelineGraph :=
  let slots := ((((((((empty.addInput "c" (.node circle) 0).addInput "n" .int 1).addParameter 1
    "encircle" "around").addReturn 1 "encircle").addParameter 2 "encircle" "around").addReturnField
    2 "encircle" "circle").addParameter 3 "halve" "size").addOutput 4 "drawn" (.node shape)
    0).addOutput 4 "size" .float 1
  ((((slots.addEdge (.input "c") (.parameter 1 "encircle" "around")).addEdge
    (.parameter 1 "encircle" "around") (.parameter 2 "encircle" "around")).addEdge (.input "n")
    (.parameter 3 "halve" "size")).addEdge (.returnField 2 "encircle" "circle")
    (.output 4 "drawn")).addEdge (.parameter 3 "halve" "size") (.output 4 "size")

/-- Sizes and shapes that are handed on, widened and drawn around suit their slots. -/
theorem suits_of_validate_encircledTwice :
    encircledTwice.Built ∧ drawings.Built ∧ ∃ p, encircledTwice.validate drawings = .ok p ∧
      NodeClass.Coherent p.graph.classes ∧ ∀ key ∈ p.graph.keys, ∃ t,
        p.graph.datatype? key = some t ∧ ∀ b, p.graph.binding key = .ok b →
          p.graph.Suits drawings t b := by
  have built : encircledTwice.Built := by
    unfold encircledTwice addOutput addReturn addReturnField addParameter addInput
    exact ⟨.addEdge _ _ (.addEdge _ _ (.addEdge _ _ (.addEdge _ _ (.addEdge _ _ (.addNode _ _
      (.addNode _ _ (.addNode _ _ (.addNode _ _ (.addNode _ _ (.addNode _ _ (.addNode _ _
      (.addNode _ _ (.addNode _ _ .empty))))))))))))), by decide +kernel⟩
  have registered : drawings.Built := .register halving (.register encircling .empty rfl) rfl
  have valid : (encircledTwice.validate drawings).toOption.any
      (fun p => decide (NodeClass.Coherent p.graph.classes)) = true := by decide +kernel
  cases e : encircledTwice.validate drawings with
  | error fault =>
    rw [e] at valid
    cases valid
  | ok p =>
    rw [e] at valid
    have coherent : NodeClass.Coherent p.graph.classes := of_decide_eq_true valid
    exact ⟨built, registered, p, rfl, coherent, (suits_of_validate built registered e coherent).1⟩

end Pipewright.PipelineGraph
