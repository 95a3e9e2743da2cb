import Pipewright.Operation.Recipe
import Pipewright.Proofs.DataType.Numeric
import Pipewright.Proofs.Graph.Validation

/-! # Validating once more
The types that validation fills in are those that it would fill in again, so a validated pipeline is
valid itself, and is its own validated pipeline. This needs types that equal themselves, because a
type that is there already is compared with the declared one. -/

namespace Pipewright

/-- The types of all parameters and results hold only numbers. -/
def Registry.Numeric (r : Registry) : Prop := ∀ t ∈ r.types, t.Numeric

namespace PipelineGraph

variable {g filled : PipelineGraph} {r : Registry} {key : SlotKey}

/-- The types that a registered operation declares hold only numbers if those of its registry do. -/
theorem Belongs.numeric (numeric : r.Numeric) {o : Operation} (belongs : Belongs r key o)
    {slot : String} {t : DataType} (declares : o.Declares slot t) : t.Numeric := by
  obtain ⟨name, -, found⟩ := belongs
  have own : ∀ t ∈ o.parameters.map Prod.snd ++ [o.returns], t.Numeric := fun t m =>
    numeric t (List.mem_flatMap.2 ⟨(name, o), Keyed.mem_of_lookup found, m⟩)
  have returns : o.returns.Numeric := own _ (by simp)
  cases declares with
  | result => exact returns
  | field nonempty leads => exact returns.resolve? leads
  | @parameter slot t plain found =>
    exact own t (List.mem_append_left _ (List.mem_map_of_mem (Keyed.mem_of_lookup found)))

/-- A node that was filled in is filled in with what it holds. -/
theorem Fills.again (numeric : r.Numeric) {attrs after : SlotAttrs} (h : Fills r key attrs after) :
    Fills r key after after := by
  cases h with
  | boundary bare => exact .boundary bare
  | @declared o t belongs declares agrees =>
    refine .declared belongs declares fun found e => ?_
    -- what it holds is the declared type, which equals itself
    rw [← Option.some.inj e, DataType.unannotated_unannotated]
    exact DataType.beq_self _ (belongs.numeric numeric declares).unannotated
  | passed belongs plain undeclared => exact .passed belongs plain undeclared

/-- A graph that was filled in is filled in with itself. -/
theorem Filling.again (numeric : r.Numeric) (h : Filling r g filled) : Filling r filled filled where
  edges := rfl
  nodes := by
    refine List.forall₂_same.2 fun node m => ⟨rfl, ?_⟩
    obtain ⟨before, -, fills⟩ := h.exists_of_mem m
    exact fills.again numeric

/-- Validation is idempotent: if the types of a registry hold only numbers, the graph of a validated
pipeline is valid, and validating it comes to the same pipeline. -/
theorem validate_validated (numeric : r.Numeric) {p : ValidatedPipeline}
    (valid : g.validate r = .ok p) : p.graph.validate r = .ok p := by
  obtain ⟨outline, filling, checks⟩ := validate_eq_ok_iff.1 valid
  refine validate_eq_ok_iff.2 ⟨?_, filling.again numeric, checks⟩
  rw [outlineFault?_congr filling.keys]
  exact outline

/-- An operation whose parameter and result are annotated, the parameter also below its outer
annotations. -/
def scaling : Operation where
  name := "scale"
  parameters := [("sizes",
    .annotated (.list (.annotated .float [.minimum (.float (-0.0))])) [.default (.list [])])]
  returns := .annotated (.list .float) [.decimals 2]
  progress? := none
  dependencies := []
  categories := []
  implementation c := Recipe.follow c (.argument "sizes")

/-- A pipeline of that operation. The type that its parameter was given has another zero in its
annotation, and other outer annotations. -/
def scaledOnce : PipelineGraph :=
  let given : DataType := .annotated (.list (.annotated .float [.minimum (.float 0.0)])) []
  let sizes : DataType := .annotated (.list (.annotated .float [.minimum (.float 0.0)])) []
  let slots := (((empty.addInput "sizes" sizes 0).addNode (.parameter 1 "scale" "sizes")
    ⟨some given, none, none⟩).addReturn 1 "scale").addOutput 2 "scaled" (.list .float) 0
  (slots.addEdge (.input "sizes") (.parameter 1 "scale" "sizes")).addEdge
    (.returnValue 1 "scale") (.output 2 "scaled")

/-- The registry with that operation. -/
def scales : Registry := ⟨[("scale", scaling)]⟩

/-- The pipeline of that operation, validated. -/
def scaled : ValidatedPipeline := (scaledOnce.validate scales).toOption.getD ⟨empty⟩

/-- Validation changes the types in that pipeline, but only once. -/
theorem validate_validated_scaled :
    scales.Numeric ∧ scaledOnce.validate scales = .ok scaled ∧
      (scaled.graph == scaledOnce) = false ∧ scaled.graph.validate scales = .ok scaled := by
  have numeric : scales.Numeric := by
    show ∀ t ∈ scales.types, ∀ x ∈ t.floats, x.isNaN = false
    decide +kernel
  have valid : scaledOnce.validate scales = .ok scaled := eq_ok_of_isOk (by decide +kernel) _
  exact ⟨numeric, valid, by decide +kernel, validate_validated numeric valid⟩

end PipelineGraph

end Pipewright
