import Pipewright.Operation.Signature
import Pipewright.Proofs.DataType.Acceptance

/-! # Outer layers of annotation do not matter
Whatever wiring asks of a type comes to the same for the type below its outer layers of
annotation. -/

namespace Pipewright

namespace DataType

/-! ## Layers -/

/-- A type with layers of annotation around it, the first one outermost. -/
def wrap : List (List Annotation) → DataType → DataType
  | [], t => t
  | as :: layers, t => .annotated (wrap layers t) as

/-- Below the layers there is the type. -/
@[simp] theorem unannotated_wrap (layers : List (List Annotation)) (t : DataType) :
    (wrap layers t).unannotated = t.unannotated := by
  induction layers with
  | nil => rfl
  | cons as layers ih => simpa [wrap] using ih

/-- Every type has some layers around the type below them. -/
theorem exists_eq_wrap (t : DataType) : ∃ layers, t = wrap layers t.unannotated := by
  fun_induction unannotated t with
  | case1 inner as ih =>
    obtain ⟨layers, e⟩ := ih
    exact ⟨as :: layers, congrArg (annotated · as) e⟩
  | case2 t _ => exact ⟨[], rfl⟩

/-- Two types are the same below their layers exactly if one comes from the other by taking layers
away and adding others. -/
theorem unannotated_eq_iff {s t : DataType} :
    s.unannotated = t.unannotated ↔ ∃ u layers layers', s = wrap layers u ∧ t = wrap layers' u := by
  constructor
  · intro same
    obtain ⟨layers, e⟩ := s.exists_eq_wrap
    obtain ⟨layers', e'⟩ := t.exists_eq_wrap
    exact ⟨t.unannotated, layers, layers', same ▸ e, e'⟩
  · rintro ⟨u, layers, layers', rfl, rfl⟩
    simp

/-! ## Acceptance -/

/-- Slots accept the same. -/
@[simp] theorem unannotated_accepts (t source : DataType) :
    t.unannotated.accepts source = t.accepts source := by
  simp [accepts, isSubtypeOf]

/-- The same slots accept what comes from a slot. -/
@[simp] theorem accepts_unannotated (t source : DataType) :
    t.accepts source.unannotated = t.accepts source := by
  simp [accepts, isSubtypeOf]

/-- A type is or is not that of nothing. -/
@[simp] theorem isUnit_unannotated (t : DataType) : t.unannotated.isUnit = t.isUnit := by
  simp [isUnit]

/-- A type is or is not that of progress callbacks. -/
@[simp] theorem isProgress_unannotated (t : DataType) :
    t.unannotated.isProgress = t.isProgress := by
  simp [isProgress]

/-! ## Parts -/

/-- Packs have the same fields. -/
@[simp] theorem field?_unannotated (t : DataType) (name : String) :
    t.unannotated.field? name = t.field? name := by
  simp [field?, pack?]

/-- Names of fields lead to the same, if there are any. Without one the type itself is reached, its
layers included. -/
theorem resolve?_unannotated (t : DataType) {path : List String} (h : path ≠ []) :
    t.unannotated.resolve? path = t.resolve? path := by
  cases path with
  | nil => exact absurd rfl h
  | cons name path => simp [resolve?]

/-- A dotted path leads to the same, as it always has a first name. -/
@[simp] theorem fieldPath?_unannotated (t : DataType) (path : String) :
    t.unannotated.fieldPath? path = t.fieldPath? path := by
  refine t.resolve?_unannotated ?_
  unfold splitPath
  exact fun nothing => Text.segments_ne_nil _ _ (List.map_eq_nil_iff.1 nothing)

/-- Nodes are found at the same places. -/
@[simp] theorem nodePaths_unannotated (t : DataType) : t.unannotated.nodePaths = t.nodePaths := by
  fun_induction unannotated t with
  | case1 inner as ih => rw [ih, nodePaths]
  | case2 t _ => rfl

/-- The same node classes are mentioned. -/
@[simp] theorem mentionedClasses_unannotated (t : DataType) :
    t.unannotated.mentionedClasses = t.mentionedClasses := by
  fun_induction unannotated t with
  | case1 inner as ih =>
    rw [ih]
    simp [mentionedClasses, nested]
  | case2 t _ => rfl

/-- A node class is or is not mentioned. -/
@[simp] theorem mentionsNode_unannotated (t : DataType) :
    t.unannotated.mentionsNode = t.mentionsNode := by
  simp [mentionsNode]

end DataType

end Pipewright
