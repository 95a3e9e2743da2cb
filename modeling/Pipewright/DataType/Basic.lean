import Pipewright.Annotation
import Pipewright.Keyed
import Pipewright.NodeClass
import Pipewright.Text.Basic

/-! # Types of slots
The types of the values that flow through a pipeline, the layers of annotation around them, and the
fields of packs. Annotations matter to the interfaces built on a type and not to wiring, so most
questions about a type are asked of it without its outer layers. -/

namespace Pipewright

/-- The type of a slot. -/
inductive DataType where
  /-- Nothing. -/
  | unit
  /-- Whole numbers. -/
  | int
  /-- Floating-point numbers. -/
  | float
  /-- Texts. -/
  | str
  /-- Truth values. -/
  | bool
  /-- The capability to report progress. -/
  | progress
  /-- Any number of items of one type. -/
  | list (item : DataType)
  /-- Values found by a key. -/
  | dict (key value : DataType)
  /-- A fixed number of items. -/
  | tuple (items : List DataType)
  /-- Managed nodes of a class. -/
  | node (nodeClass : NodeClass)
  /-- Named fields under a name. -/
  | pack (name : String) (fields : List (String × DataType))
  /-- A type with constraints and hints. -/
  | annotated (inner : DataType) (annotations : List Annotation)
  /-- A type defined elsewhere and known by name only. -/
  | external (name : String)

namespace DataType

mutual

/-- Equality of types, annotations included. -/
def beq : DataType → DataType → Bool
  | .unit, .unit => true
  | .int, .int => true
  | .float, .float => true
  | .str, .str => true
  | .bool, .bool => true
  | .progress, .progress => true
  | .list a, .list b => beq a b
  | .dict k v, .dict k' v' => beq k k' && beq v v'
  | .tuple a, .tuple b => beqItems a b
  | .node a, .node b => a == b
  | .pack n a, .pack n' b => n == n' && beqFields a b
  | .annotated t as, .annotated t' as' => beq t t' && as == as'
  | .external a, .external b => a == b
  | _, _ => false

/-- Equality of lists of types, item by item. -/
def beqItems : List DataType → List DataType → Bool
  | [], [] => true
  | a :: as, b :: bs => beq a b && beqItems as bs
  | _, _ => false

/-- Equality of lists of fields, field by field. -/
def beqFields : List (String × DataType) → List (String × DataType) → Bool
  | [], [] => true
  | (n, a) :: as, (n', b) :: bs => n == n' && beq a b && beqFields as bs
  | _, _ => false

end

instance : BEq DataType := ⟨beq⟩

/-! ## Annotation layers -/

/-- The type below all its outer layers of annotation. -/
def unannotated : DataType → DataType
  | .annotated inner _ => inner.unannotated
  | t => t

@[simp] theorem unannotated_annotated (t : DataType) (as : List Annotation) :
    (annotated t as).unannotated = t.unannotated := rfl

/-- What is below the outer layers has no outer layer. -/
@[simp] theorem unannotated_unannotated (t : DataType) :
    t.unannotated.unannotated = t.unannotated := by
  fun_induction unannotated t with
  | case1 inner as ih => exact ih
  | case2 t h => grind [unannotated]

/-- The annotations of the outermost layer. -/
def annotations : DataType → List Annotation
  | .annotated _ as => as
  | _ => []

/-- The declared default: the first one of the outermost layer that has one. -/
def defaultValue? : DataType → Option Value
  | .annotated inner as => (as.findSome? Annotation.default?).or inner.defaultValue?
  | _ => none

/-! ## Parts -/

/-- The class of a node type. -/
def nodeClass? (t : DataType) : Option NodeClass :=
  match t.unannotated with
  | .node c => some c
  | _ => none

/-- Whether values of the type are managed nodes, whose removal is somebody's duty. -/
def isManaged (t : DataType) : Bool := t.nodeClass?.isSome

/-- The name and the fields of a pack. -/
def pack? (t : DataType) : Option (String × List (String × DataType)) :=
  match t.unannotated with
  | .pack name fields => some (name, fields)
  | _ => none

/-- The type of a pack's field; of two fields of one name, the first one's. -/
def field? (t : DataType) (name : String) : Option DataType :=
  match t.pack? with
  | some (_, fields) => Keyed.lookup name fields
  | none => none

/-- Follow field names through packs. -/
def resolve? : DataType → List String → Option DataType
  | t, [] => some t
  | t, name :: path =>
    match t.field? name with
    | some inner => inner.resolve? path
    | none => none

/-- The field names in a dotted path. -/
def splitPath (path : String) : List String :=
  (Text.segments '.' path.toList).map String.ofList

/-- Follow a dotted path through packs. -/
def fieldPath? (t : DataType) (path : String) : Option DataType := t.resolve? (splitPath path)

/-! ## Nested types -/

mutual

/-- The type and every type nested in it, outer ones first. -/
def nested : DataType → List DataType
  | .list item => .list item :: nested item
  | .dict key value => .dict key value :: (nested key ++ nested value)
  | .tuple items => .tuple items :: nestedItems items
  | .pack name fields => .pack name fields :: nestedFields fields
  | .annotated inner as => .annotated inner as :: nested inner
  | t => [t]

/-- The types nested in a list of types. -/
def nestedItems : List DataType → List DataType
  | [] => []
  | item :: items => nested item ++ nestedItems items

/-- The types nested in a list of fields. -/
def nestedFields : List (String × DataType) → List DataType
  | [] => []
  | (_, t) :: fields => nested t ++ nestedFields fields

end

/-- The node classes that a type mentions at any depth. -/
def mentionedClasses (t : DataType) : List NodeClass :=
  t.nested.filterMap fun
    | .node c => some c
    | _ => none

/-- Whether a type mentions a node class at any depth. -/
def mentionsNode (t : DataType) : Bool := !t.mentionedClasses.isEmpty

mutual

/-- The field paths of a type at which nodes are found, the type itself being at the empty path. -/
def nodePaths : DataType → List (List String)
  | .node _ => [[]]
  | .pack _ fields => nodePathsOfFields fields
  | .annotated inner _ => nodePaths inner
  | _ => []

/-- The field paths of a list of fields at which nodes are found. -/
def nodePathsOfFields : List (String × DataType) → List (List String)
  | [] => []
  | (name, t) :: fields => (nodePaths t).map (name :: ·) ++ nodePathsOfFields fields

end

end DataType

end Pipewright
