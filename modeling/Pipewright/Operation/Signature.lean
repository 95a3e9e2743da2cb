import Pipewright.Operation.Basic

/-! # Signatures
What an operation declares about itself when it is registered, and what is wrong with a declaration
that cannot be accepted. -/

namespace Pipewright

/-- The declared types of an operation. -/
structure Signature where
  /-- The parameters, maybe without a type. -/
  parameters : List (String × Option DataType)
  /-- The type of what it returns. -/
  returns? : Option DataType

/-- What is wrong with a signature. -/
inductive SignatureFault where
  /-- No return type is declared. -/
  | returnsUntyped
  /-- Nothing is returned. -/
  | returnsNothing
  /-- A parameter has no type. -/
  | parameterUntyped (name : String)
  /-- Two parameters have one name. -/
  | parameterRepeated (name : String)
  /-- Two parameters take a progress callback. -/
  | progressRepeated (first second : String)
deriving DecidableEq, Repr

/-- The text of a fault. -/
def SignatureFault.message : SignatureFault → String
  | .returnsUntyped => "return type is not annotated"
  | .returnsNothing => "return type must not be ()"
  | .parameterUntyped name => "parameter '" ++ name ++ "' is not annotated"
  | .parameterRepeated name => "parameter '" ++ name ++ "' is declared twice"
  | .progressRepeated first second =>
    "parameters '" ++ first ++ "' and '" ++ second ++ "' both take a progress callback"

/-- A signature without faults. -/
structure CheckedSignature where
  /-- The parameters that steps wire. -/
  parameters : List (String × DataType)
  /-- The type of what is returned. -/
  returns : DataType
  /-- The parameter that takes a progress callback. -/
  progress? : Option String

namespace DataType

/-- Whether a type is that of nothing, below its annotations. -/
def isUnit (t : DataType) : Bool :=
  match t.unannotated with
  | .unit => true
  | _ => false

/-- Whether a type is that of progress callbacks, below its annotations. -/
def isProgress (t : DataType) : Bool :=
  match t.unannotated with
  | .progress => true
  | _ => false

end DataType

namespace Signature

/-- Sort parameters into those that steps wire and the one that takes a progress callback, behind
the ones that are sorted already. -/
def sortParameters (wired : List (String × DataType)) (progress : Option String) :
    List (String × Option DataType) →
      Except SignatureFault (List (String × DataType) × Option String)
  | [] => .ok (wired, progress)
  | (name, none) :: _ => .error (.parameterUntyped name)
  | (name, some t) :: rest =>
    if Keyed.contains name wired || progress == some name then .error (.parameterRepeated name)
    else if t.isProgress then
      match progress with
      | some first => .error (.progressRepeated first name)
      | none => sortParameters wired (some name) rest
    else sortParameters (wired ++ [(name, t)]) progress rest

/-- Check a signature. -/
def check (s : Signature) : Except SignatureFault CheckedSignature :=
  match s.returns? with
  | none => .error .returnsUntyped
  | some returns =>
    if returns.isUnit then .error .returnsNothing
    else
      match sortParameters [] none s.parameters with
      | .error fault => .error fault
      | .ok (wired, progress) => .ok ⟨wired, returns, progress⟩

end Signature

end Pipewright
