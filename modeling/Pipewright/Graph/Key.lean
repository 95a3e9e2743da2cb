import Pipewright.Json.Basic
import Pipewright.Text.Basic

/-! # Keys of graph nodes
A node of a pipeline graph is a slot, and is found by its step, the operation at that step and the
slot's name. Overall inputs and outputs belong to no operation. The return value of an operation is
the slot `return`; a field of it, at any depth, is `return.` and the dotted path of the field. -/

namespace Pipewright

/-- The key of a graph node. -/
structure SlotKey where
  /-- The step it belongs to. -/
  step : Nat
  /-- The operation at that step; none for an overall input or output. -/
  operation : Option String
  /-- The name of the slot. -/
  slot : String
deriving DecidableEq, Repr

/-- The slot of a whole return value. -/
def returnSlot : String := "return"

/-- What follows `return` in a slot's name. -/
def afterReturn? (slot : String) : Option (List Char) :=
  Text.dropLead? returnSlot.toList slot.toList

/-- Whether a slot is a return value or is spelled like a part of one. -/
def isReturnSlot (slot : String) : Bool :=
  match afterReturn? slot with
  | some [] => true
  | some ('.' :: _) => true
  | _ => false

namespace SlotKey

/-- An overall input. -/
def input (name : String) : SlotKey := ⟨0, none, name⟩

/-- An overall output at the last step. -/
def output (lastStep : Nat) (name : String) : SlotKey := ⟨lastStep, none, name⟩

/-- A parameter of the operation at a step. -/
def parameter (step : Nat) (operation name : String) : SlotKey := ⟨step, some operation, name⟩

/-- The return value of the operation at a step. -/
def returnValue (step : Nat) (operation : String) : SlotKey := ⟨step, some operation, returnSlot⟩

/-- A field of the return value of the operation at a step. -/
def returnField (step : Nat) (operation field : String) : SlotKey :=
  ⟨step, some operation, returnSlot ++ "." ++ field⟩

/-- Whether it is a return value or is spelled like a part of one. -/
def isReturn (key : SlotKey) : Bool := isReturnSlot key.slot

/-- The dotted path of the field of a return value, if it names one. -/
def returnField? (key : SlotKey) : Option String :=
  match afterReturn? key.slot with
  | some ('.' :: c :: path) => some (String.ofList (c :: path))
  | _ => none

/-- Whether it is an overall input or output, judged by its having no operation. -/
def isBoundary (key : SlotKey) : Bool := key.operation.isNone

/-- No operation comes before every operation; the others are in the order of their names. -/
def operationBefore : Option String → Option String → Prop
  | none, some _ => True
  | some a, some b => a < b
  | _, none => False

instance : DecidableRel operationBefore
  | none, some _ => isTrue trivial
  | some a, some b => inferInstanceAs (Decidable (a < b))
  | none, none => isFalse id
  | some _, none => isFalse id

/-- Keys are in the order of their steps, then of their operations, then of their slots. -/
def Before (a b : SlotKey) : Prop :=
  a.step < b.step ∨ a.step = b.step ∧
    (operationBefore a.operation b.operation ∨ a.operation = b.operation ∧ a.slot < b.slot)

instance : LT SlotKey := ⟨Before⟩

instance : DecidableLT SlotKey := fun a b =>
  inferInstanceAs (Decidable (a.step < b.step ∨ a.step = b.step ∧
    (operationBefore a.operation b.operation ∨ a.operation = b.operation ∧ a.slot < b.slot)))

/-- The text that is shown for a key. -/
def display (key : SlotKey) : String :=
  "(" ++ toString key.step ++ ", " ++ key.operation.getD "None" ++ ", " ++ key.slot ++ ")"

/-- The text of a key that names its kind. -/
def outline (key : SlotKey) : String := "NodeKey" ++ key.display

/-- The document of a key. -/
def toJson (key : SlotKey) : Json :=
  .object [("step", .number (.whole key.step)),
    ("operation", key.operation.elim .null .str), ("slot", .str key.slot)]

/-- Keys in ascending order, repeats kept. -/
def sort (keys : List SlotKey) : List SlotKey := keys.mergeSort fun a b => !decide (b < a)

/-- A whole return value is spelled like one. -/
@[simp] theorem isReturn_returnValue (step : Nat) (operation : String) :
    (returnValue step operation).isReturn = true := by
  have h : afterReturn? returnSlot = some [] := Text.dropLead?_eq_some_iff.2 (by simp)
  simp [isReturn, returnValue, isReturnSlot, h]

end SlotKey

end Pipewright
