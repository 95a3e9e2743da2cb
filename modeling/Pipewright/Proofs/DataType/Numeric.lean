import Pipewright.Proofs.DataType.Equality
import Pipewright.Proofs.DataType.RoundTrip

/-! # Types that equal themselves
A type whose annotations hold only numbers equals itself. The number that is none is the only thing
that keeps a type from it, and no type that is reached from a numeric one, below its annotations or
along the fields of its packs, holds it either. -/

namespace Pipewright

/-- A floating-point number that is one equals itself. -/
theorem float_beq_self {x : Float} (h : x.isNaN = false) : (x == x) = true := by
  refine unpacked_beq_iff.2 (.inl ⟨fun none => ?_, rfl⟩)
  have : x.isNaN = true := Float.Model.UnpackedFloat.isNaN_iff.2 none
  rw [h] at this
  cases this

/-! ## Literals -/

namespace Value

/-- All floating-point numbers in a literal are numbers. -/
def Numeric (v : Value) : Prop := ∀ x ∈ v.floats, x.isNaN = false

mutual

/-- A numeric literal equals itself. -/
theorem beq_self : (v : Value) → v.Numeric → beq v v = true
  | .int n, _ => beq_self_eq_true n
  | .float x, h => float_beq_self (h x (List.mem_singleton_self x))
  | .str text, _ => beq_self_eq_true text
  | .bool b, _ => beq_self_eq_true b
  | .list items, h => beqItems_self items h
  | .tuple items, h => beqItems_self items h
  | .dict pairs, h => beqPairs_self pairs h

/-- Numeric literals equal themselves, one by one. -/
theorem beqItems_self : (items : List Value) → (∀ x ∈ floatsOfItems items, x.isNaN = false) →
    beqItems items items = true
  | [], _ => rfl
  | item :: items, h => by
    rw [floatsOfItems, List.forall_mem_append] at h
    rw [beqItems, Bool.and_eq_true]
    exact ⟨beq_self item h.1, beqItems_self items h.2⟩

/-- Pairs of numeric literals equal themselves, one by one. -/
theorem beqPairs_self : (pairs : List (Value × Value)) →
    (∀ x ∈ floatsOfPairs pairs, x.isNaN = false) → beqPairs pairs pairs = true
  | [], _ => rfl
  | (k, v) :: pairs, h => by
    rw [floatsOfPairs, List.forall_mem_append, List.forall_mem_append] at h
    rw [beqPairs, Bool.and_eq_true, Bool.and_eq_true]
    exact ⟨⟨beq_self k h.1.1, beq_self v h.1.2⟩, beqPairs_self pairs h.2⟩

end

end Value

/-! ## Annotations -/

/-- An annotation with numeric arguments equals itself. -/
theorem Annotation.beq_self {a : Annotation} (h : ∀ v ∈ a.arguments, v.Numeric) :
    a.beq a = true := by
  cases a with
  | minimum bound => exact bound.beq_self (h _ (by simp [arguments]))
  | maximum bound => exact bound.beq_self (h _ (by simp [arguments]))
  | default value => exact value.beq_self (h _ (by simp [arguments]))
  | decimals places => exact beq_self_eq_true places
  | singleStep step => exact step.beq_self (h _ (by simp [arguments]))
  | withinRange low high =>
    rw [beq, Bool.and_eq_true]
    exact ⟨low.beq_self (h _ (by simp [arguments])), high.beq_self (h _ (by simp [arguments]))⟩

/-- A list of annotations that hold only numbers equals itself. -/
theorem annotations_beq_self {as : List Annotation}
    (h : ∀ x ∈ as.flatMap Annotation.floats, x.isNaN = false) : (as == as) = true := by
  induction as with
  | nil => rfl
  | cons a as ih =>
    rw [List.flatMap_cons, List.forall_mem_append] at h
    rw [List.cons_beq_cons, Bool.and_eq_true]
    have first : a.beq a = true :=
      Annotation.beq_self fun v m x m' => h.1 x (List.mem_flatMap.2 ⟨v, m, m'⟩)
    exact ⟨first, ih h.2⟩

/-! ## Types -/

namespace DataType

/-- All floating-point numbers in the annotations of a type are numbers. -/
def Numeric (t : DataType) : Prop := ∀ x ∈ t.floats, x.isNaN = false

instance (t : DataType) : Decidable t.Numeric :=
  inferInstanceAs (Decidable (∀ x ∈ t.floats, x.isNaN = false))

mutual

/-- A numeric type equals itself. -/
theorem beq_self : (t : DataType) → t.Numeric → beq t t = true
  | .unit, _ => rfl
  | .int, _ => rfl
  | .float, _ => rfl
  | .str, _ => rfl
  | .bool, _ => rfl
  | .progress, _ => rfl
  | .list item, h => beq_self item h
  | .dict key value, h => by
    rw [Numeric, floats, List.forall_mem_append] at h
    rw [beq, Bool.and_eq_true]
    exact ⟨beq_self key h.1, beq_self value h.2⟩
  | .tuple items, h => beqItems_self items h
  | .node c, _ => beq_self_eq_true c
  | .pack name fields, h => by
    rw [beq, Bool.and_eq_true]
    exact ⟨beq_self_eq_true name, beqFields_self fields h⟩
  | .annotated inner as, h => by
    rw [Numeric, floats, List.forall_mem_append] at h
    rw [beq, Bool.and_eq_true]
    exact ⟨beq_self inner h.1, annotations_beq_self h.2⟩
  | .external name, _ => beq_self_eq_true name

/-- Numeric types equal themselves, one by one. -/
theorem beqItems_self : (items : List DataType) → (∀ x ∈ floatsOfItems items, x.isNaN = false) →
    beqItems items items = true
  | [], _ => rfl
  | item :: items, h => by
    rw [floatsOfItems, List.forall_mem_append] at h
    rw [beqItems, Bool.and_eq_true]
    exact ⟨beq_self item h.1, beqItems_self items h.2⟩

/-- Fields of numeric types equal themselves, one by one. -/
theorem beqFields_self : (fields : List (String × DataType)) →
    (∀ x ∈ floatsOfFields fields, x.isNaN = false) → beqFields fields fields = true
  | [], _ => rfl
  | (name, t) :: fields, h => by
    rw [floatsOfFields, List.forall_mem_append] at h
    rw [beqFields, Bool.and_eq_true, Bool.and_eq_true]
    exact ⟨⟨beq_self_eq_true name, beq_self t h.1⟩, beqFields_self fields h.2⟩

end

/-! ## Parts of numeric types -/

namespace Numeric

variable {t u : DataType}

/-- A numeric type is numeric below its outer annotations. -/
theorem unannotated (h : t.Numeric) : t.unannotated.Numeric := by
  fun_induction DataType.unannotated t with
  | case1 inner as ih =>
    rw [Numeric, floats, List.forall_mem_append] at h
    exact ih h.1
  | case2 t _ => exact h

/-- The fields of a numeric pack are numeric. -/
theorem of_lookup {name : String} {fields : List (String × DataType)}
    (h : ∀ x ∈ floatsOfFields fields, x.isNaN = false)
    (found : Keyed.lookup name fields = some u) : u.Numeric := by
  induction fields with
  | nil => cases found
  | cons field fields ih =>
    obtain ⟨name', t⟩ := field
    rw [floatsOfFields, List.forall_mem_append] at h
    rw [Keyed.lookup_cons] at found
    split at found
    · exact Option.some.inj found ▸ h.1
    · exact ih h.2 found

/-- A field of a numeric type is numeric. -/
theorem field? (h : t.Numeric) {name : String} (found : t.field? name = some u) : u.Numeric := by
  have below := h.unannotated
  unfold DataType.field? pack? at found
  cases e : t.unannotated with
  | pack name' fields =>
    rw [e] at found below
    exact of_lookup below found
  | _ =>
    rw [e] at found
    cases found

/-- What field names lead to in a numeric type is numeric. -/
theorem resolve? (h : t.Numeric) {path : List String} (leads : t.resolve? path = some u) :
    u.Numeric := by
  induction path generalizing t with
  | nil => exact Option.some.inj leads ▸ h
  | cons name path ih =>
    unfold DataType.resolve? at leads
    cases found : t.field? name with
    | none =>
      rw [found] at leads
      cases leads
    | some inner =>
      rw [found] at leads
      exact ih (h.field? found) leads

end Numeric

end DataType

end Pipewright
