import Pipewright.DataType.Basic

/-! # Which values fit which slots
A type is a subtype of itself and of the node classes it descends from. A slot accepts what comes
from a subtype, and a slot for floating-point numbers also accepts whole ones. Outer layers of
annotation are disregarded throughout. -/

namespace Pipewright

namespace DataType

/-- The same type, or a node class that descends from the other. -/
def isSubtypeOf (t other : DataType) : Bool :=
  match t.unannotated, other.unannotated with
  | .node child, .node parent => child.descendsFrom parent
  | a, b => a == b

/-- Whether a slot of this type can be fed from a slot of the source's type. -/
def accepts (t source : DataType) : Bool :=
  (match source.unannotated, t.unannotated with
    | .int, .float => true
    | _, _ => false) || source.isSubtypeOf t

end DataType

namespace Value

mutual

/-- Whether a literal may stand in a slot of a type. -/
def conformsTo (v : Value) (t : DataType) : Bool :=
  match v, t.unannotated with
  | .int _, .int => true
  | .int _, .float => true
  | .float _, .float => true
  | .str _, .str => true
  | .bool _, .bool => true
  | .list items, .list item => allConformTo items item
  | .tuple items, .tuple types => conformEach items types
  | .dict pairs, .dict key value => pairsConformTo pairs key value
  | _, _ => false

/-- Whether every literal of a list may stand in a slot of a type. -/
def allConformTo : List Value → DataType → Bool
  | [], _ => true
  | v :: vs, t => conformsTo v t && allConformTo vs t

/-- Whether the literals may stand, one by one, in slots of the types. -/
def conformEach : List Value → List DataType → Bool
  | [], [] => true
  | v :: vs, t :: ts => conformsTo v t && conformEach vs ts
  | _, _ => false

/-- Whether the keys and the values of all pairs may stand in slots of two types. -/
def pairsConformTo : List (Value × Value) → DataType → DataType → Bool
  | [], _, _ => true
  | (k, v) :: pairs, key, value =>
    conformsTo k key && conformsTo v value && pairsConformTo pairs key value

end

end Value

end Pipewright
