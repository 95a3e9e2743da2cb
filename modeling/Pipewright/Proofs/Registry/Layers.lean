import Pipewright.Proofs.DataType.Layers
import Pipewright.Proofs.Keyed
import Pipewright.Registry

/-! # Registering below the layers of annotation
A signature without the outer layers of its types is accepted exactly if the signature is, and a
registry without them takes the same operations. -/

namespace Pipewright

/-! ## Signatures -/

/-- A signature without the outer layers of its types. -/
def Signature.bare (s : Signature) : Signature where
  parameters := Keyed.mapValues (Option.map DataType.unannotated) s.parameters
  returns? := s.returns?.map DataType.unannotated

/-- A signature without faults, without the outer layers of its types. -/
def CheckedSignature.bare (s : CheckedSignature) : CheckedSignature where
  parameters := Keyed.mapValues DataType.unannotated s.parameters
  returns := s.returns.unannotated
  progress? := s.progress?

namespace Signature

/-- Parameters are sorted in the same way, or have the same fault. -/
theorem sortParameters_bare (wired : List (String × DataType)) (progress : Option String)
    (parameters : List (String × Option DataType)) :
    sortParameters (Keyed.mapValues DataType.unannotated wired) progress
        (Keyed.mapValues (Option.map DataType.unannotated) parameters) =
      (sortParameters wired progress parameters).map fun sorted =>
        (Keyed.mapValues DataType.unannotated sorted.1, sorted.2) := by
  induction parameters generalizing wired progress with
  | nil => rfl
  | cons parameter rest ih =>
    obtain ⟨name, type?⟩ := parameter
    cases type? with
    | none => rfl
    | some t =>
      have step : Keyed.mapValues (Option.map DataType.unannotated) ((name, some t) :: rest) =
          (name, some t.unannotated) ::
            Keyed.mapValues (Option.map DataType.unannotated) rest := rfl
      have more : Keyed.mapValues DataType.unannotated wired ++ [(name, t.unannotated)] =
          Keyed.mapValues DataType.unannotated (wired ++ [(name, t)]) := by
        simp [Keyed.mapValues]
      rw [step]
      unfold sortParameters
      simp only [Keyed.contains_mapValues, DataType.isProgress_unannotated, more, ih]
      split
      · rfl
      · split
        · cases progress <;> rfl
        · rfl

/-- A signature is accepted without the outer layers exactly if it is with them, and has the same
fault otherwise. -/
@[simp] theorem check_bare (s : Signature) : s.bare.check = s.check.map CheckedSignature.bare := by
  unfold check bare
  cases s.returns? with
  | none => rfl
  | some returns =>
    have sorted : sortParameters [] none
        (Keyed.mapValues (Option.map DataType.unannotated) s.parameters) = _ :=
      sortParameters_bare [] none s.parameters
    simp only [Option.map_some, DataType.isUnit_unannotated, sorted]
    split
    · rfl
    · cases sortParameters [] none s.parameters <;> rfl

end Signature

/-! ## Operations -/

/-- An operation without the outer layers of its types. -/
def Operation.bare (o : Operation) : Operation :=
  { o with
    parameters := Keyed.mapValues DataType.unannotated o.parameters
    returns := o.returns.unannotated }

namespace Operation

@[simp] theorem name_bare (o : Operation) : o.bare.name = o.name := rfl

@[simp] theorem returns_bare (o : Operation) : o.bare.returns = o.returns.unannotated := rfl

@[simp] theorem progress?_bare (o : Operation) : o.bare.progress? = o.progress? := rfl

/-- The parameters have the same names. -/
@[simp] theorem parameterNames_bare (o : Operation) :
    o.bare.parameters.map Prod.fst = o.parameters.map Prod.fst := Keyed.keys_mapValues _ _

/-- A parameter has its type without the outer layers. -/
@[simp] theorem parameter?_bare (o : Operation) (name : String) :
    o.bare.parameter? name = (o.parameter? name).map DataType.unannotated :=
  Keyed.lookup_mapValues _ _ _

end Operation

/-- What is registered, without the outer layers of its types. -/
def Registration.bare (new : Registration) : Registration :=
  { new with signature := new.signature.bare }

/-- A registration comes to the same operation, but for the layers, or to the same error. -/
@[simp] theorem Registration.operation_bare (new : Registration) :
    new.bare.operation = new.operation.map Operation.bare := by
  unfold operation
  have checked : new.bare.signature.check = new.signature.check.map CheckedSignature.bare :=
    new.signature.check_bare
  rw [checked]
  cases new.signature.check <;> rfl

/-! ## Registries -/

/-- A registry without the outer layers of the types of its operations. -/
def Registry.bare (r : Registry) : Registry := ⟨Keyed.mapValues Operation.bare r.operations⟩

namespace Registry

/-- Under a name there is the operation without the outer layers. -/
@[simp] theorem operation?_bare (r : Registry) (name : String) :
    r.bare.operation? name = (r.operation? name).map Operation.bare :=
  Keyed.lookup_mapValues _ _ _

/-- The same names are registered. -/
@[simp] theorem contains_bare (r : Registry) (name : String) :
    r.bare.contains name = r.contains name :=
  Keyed.contains_mapValues _ _ _

/-- Registering comes to the same registry, but for the layers, or to the same error. -/
@[simp] theorem register_bare (r : Registry) (new : Registration) :
    r.bare.register new.bare = (r.register new).map Registry.bare := by
  unfold register
  rw [contains_bare, Registration.operation_bare, show new.bare.name = new.name from rfl]
  split
  · rfl
  · cases new.operation with
    | error fault => rfl
    | ok o =>
      exact congrArg (fun operations => Except.ok (Registry.mk operations))
        (Keyed.insert_mapValues Operation.bare new.name o r.operations)

/-- Registering one after another comes to the same, up to the first one that cannot be
registered. -/
theorem registerAll_bare (r : Registry) (news : List Registration) :
    r.bare.registerAll (news.map Registration.bare) =
      ((r.registerAll news).1, (r.registerAll news).2.bare) := by
  induction news generalizing r with
  | nil => rfl
  | cons new rest ih =>
    rw [List.map_cons]
    unfold registerAll
    rw [register_bare]
    cases r.register new with
    | error fault => rfl
    | ok next => exact ih next

end Registry

end Pipewright
