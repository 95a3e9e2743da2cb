import Pipewright.DataType.Document
import Pipewright.Proofs.Json.Written

/-! # Documents of types there and back
Node classes and external types are read from their documents. -/

namespace Pipewright

open Json (tagged enter? maxDepth)

/-- A class is read from its document. -/
theorem NodeClass.ofJson?_toJson (c : NodeClass) (room : Nat) :
    NodeClass.ofJson? (room + 2) c.toJson = some c := by
  have ancestors : (c.ancestors.map Json.str).mapM Json.str? = some c.ancestors := by
    induction c.ancestors with
    | nil => rfl
    | cons name names ih =>
      rw [List.map_cons, List.mapM_cons, ih]
      rfl
  unfold NodeClass.toJson NodeClass.ofJson?
  simp [enter?, Json.single?, Json.str?, Json.strings?, ancestors]

namespace DataType

/-- A node type is read from its document. -/
theorem ofText?_node (c : NodeClass) : ofText? (toText (.node c)) = some (.node c) := by
  have numbers : ∀ n ∈ Json.numbers (toJson (.node c)), n.ReadsBack := by
    have none (names : List String) : Json.numbersOfItems (names.map Json.str) = [] := by
      induction names with
      | nil => rfl
      | cons name names ih => exact ih
    intro n m
    simp [toJson, tagged, NodeClass.toJson, Json.numbers, Json.numbersOfEntries, none] at m
  unfold ofText? toText
  rw [Json.parse?_compact numbers]
  show (NodeClass.ofJson? 126 c.toJson).map DataType.node = _
  rw [c.ofJson?_toJson]
  rfl

/-- An external type is read from its document. -/
theorem ofText?_external (name : String) :
    ofText? (toText (.external name)) = some (.external name) := by
  unfold ofText? toText
  rw [Json.parse?_compact fun n m => absurd m (by simp [toJson, tagged, Json.numbers,
    Json.numbersOfEntries])]
  rfl

end DataType

end Pipewright
