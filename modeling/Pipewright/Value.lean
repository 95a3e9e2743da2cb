import Pipewright.Decimal.Layout
import Pipewright.Text.Quoted

/-! # Literals
Plain data that stands in for a connection on a parameter slot. Equality compares floating-point
numbers as numbers, so the number that is none differs from itself and the two zeros agree. -/

namespace Pipewright

/-- A literal. -/
inductive Value where
  /-- A whole number of 64 bits. -/
  | int (n : Int64)
  /-- A floating-point number. -/
  | float (x : Float)
  /-- A text. -/
  | str (text : String)
  /-- A truth value. -/
  | bool (b : Bool)
  /-- Any number of literals of one kind. -/
  | list (items : List Value)
  /-- A fixed number of literals. -/
  | tuple (items : List Value)
  /-- Pairs of a key and a value, in the order in which they were written. -/
  | dict (pairs : List (Value × Value))

namespace Value

/-! ## Equality -/

mutual

/-- Equality of literals. -/
def beq : Value → Value → Bool
  | .int a, .int b => a == b
  | .float a, .float b => a == b
  | .str a, .str b => a == b
  | .bool a, .bool b => a == b
  | .list a, .list b => beqItems a b
  | .tuple a, .tuple b => beqItems a b
  | .dict a, .dict b => beqPairs a b
  | _, _ => false

/-- Equality of lists of literals, item by item. -/
def beqItems : List Value → List Value → Bool
  | [], [] => true
  | a :: as, b :: bs => beq a b && beqItems as bs
  | _, _ => false

/-- Equality of lists of pairs, pair by pair. -/
def beqPairs : List (Value × Value) → List (Value × Value) → Bool
  | [], [] => true
  | (k, v) :: as, (k', v') :: bs => beq k k' && beq v v' && beqPairs as bs
  | _, _ => false

end

instance : BEq Value := ⟨beq⟩

/-- The short name of a literal's kind. -/
def kind : Value → String
  | .int _ => "int"
  | .float _ => "float"
  | .str _ => "str"
  | .bool _ => "bool"
  | .list _ => "list"
  | .tuple _ => "tuple"
  | .dict _ => "dict"

/-! ## The shown text -/

/-- A whole number in decimal digits. -/
def showInt (n : Int64) : String := toString n.toInt

/-- A truth value. -/
def showBool (b : Bool) : String := if b then "true" else "false"

mutual

/-- The text that is shown for a literal. A tuple of one item has a comma behind it. -/
def display : Value → String
  | .int n => showInt n
  | .float x => Decimal.shown x
  | .str text => Text.quoted text
  | .bool b => showBool b
  | .list items => "[" ++ ", ".intercalate (displayItems items) ++ "]"
  | .tuple [item] => "(" ++ display item ++ ",)"
  | .tuple items => "(" ++ ", ".intercalate (displayItems items) ++ ")"
  | .dict pairs => "\x7b" ++ ", ".intercalate (displayPairs pairs) ++ "\x7d"

/-- The texts of a list of literals. -/
def displayItems : List Value → List String
  | [] => []
  | item :: items => display item :: displayItems items

/-- The texts of a list of pairs. -/
def displayPairs : List (Value × Value) → List String
  | [] => []
  | (k, v) :: pairs => (display k ++ ": " ++ display v) :: displayPairs pairs

end

@[simp] theorem displayItems_eq_map (items : List Value) :
    displayItems items = items.map display := by
  induction items with
  | nil => rfl
  | cons item items ih => simp [displayItems, ih]

/-! ## The outline -/

mutual

/-- The text of a literal that names the kind of every part. -/
def outline : Value → String
  | .int n => "Int(" ++ showInt n ++ ")"
  | .float x => "Float(" ++ Decimal.shown x ++ ")"
  | .str text => "Str(" ++ Text.quoted text ++ ")"
  | .bool b => "Bool(" ++ showBool b ++ ")"
  | .list items => "List([" ++ ", ".intercalate (outlineItems items) ++ "])"
  | .tuple items => "Tuple([" ++ ", ".intercalate (outlineItems items) ++ "])"
  | .dict pairs => "Dict([" ++ ", ".intercalate (outlinePairs pairs) ++ "])"

/-- The outlines of a list of literals. -/
def outlineItems : List Value → List String
  | [] => []
  | item :: items => outline item :: outlineItems items

/-- The outlines of a list of pairs. -/
def outlinePairs : List (Value × Value) → List String
  | [] => []
  | (k, v) :: pairs => ("(" ++ outline k ++ ", " ++ outline v ++ ")") :: outlinePairs pairs

end

end Value

end Pipewright
