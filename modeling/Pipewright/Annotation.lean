import Pipewright.Value

/-! # Annotations
Constraints and hints that a type carries for the interfaces built on it. -/

namespace Pipewright

/-- A constraint or hint attached to a type. -/
inductive Annotation where
  /-- The least value offered. -/
  | minimum (bound : Value)
  /-- The greatest value offered. -/
  | maximum (bound : Value)
  /-- The value a fresh slot holds. -/
  | default (value : Value)
  /-- The number of decimal places shown. -/
  | decimals (places : Int64)
  /-- The distance between two values offered. -/
  | singleStep (step : Value)
  /-- The least and the greatest value offered. -/
  | withinRange (low high : Value)

namespace Annotation

/-- Equality of annotations. -/
def beq : Annotation → Annotation → Bool
  | .minimum a, .minimum b => a == b
  | .maximum a, .maximum b => a == b
  | .default a, .default b => a == b
  | .decimals a, .decimals b => a == b
  | .singleStep a, .singleStep b => a == b
  | .withinRange a b, .withinRange a' b' => a == a' && b == b'
  | _, _ => false

instance : BEq Annotation := ⟨beq⟩

/-- The name that is shown for the kind of annotation. -/
def label : Annotation → String
  | .minimum _ => "Minimum"
  | .maximum _ => "Maximum"
  | .default _ => "Default"
  | .decimals _ => "Decimals"
  | .singleStep _ => "SingleStep"
  | .withinRange _ _ => "WithinRange"

/-- The name of the script function that makes the annotation. -/
def constructorName : Annotation → String
  | .minimum _ => "minimum"
  | .maximum _ => "maximum"
  | .default _ => "default_value"
  | .decimals _ => "decimals"
  | .singleStep _ => "single_step"
  | .withinRange _ _ => "within_range"

/-- The arguments of that function, in the order of the call. -/
def arguments : Annotation → List Value
  | .minimum v => [v]
  | .maximum v => [v]
  | .default v => [v]
  | .decimals places => [.int places]
  | .singleStep v => [v]
  | .withinRange low high => [low, high]

/-- The text that is shown for an annotation. -/
def display (a : Annotation) : String :=
  a.label ++ "(" ++ ", ".intercalate (a.arguments.map Value.display) ++ ")"

/-- The text of an annotation that names the kind of every part. -/
def outline : Annotation → String
  | .decimals places => "Decimals(" ++ Value.showInt places ++ ")"
  | a => a.label ++ "(" ++ ", ".intercalate (a.arguments.map Value.outline) ++ ")"

/-- The value an annotation declares as default, if it is of that kind. -/
def default? : Annotation → Option Value
  | .default v => some v
  | _ => none

end Annotation

end Pipewright
