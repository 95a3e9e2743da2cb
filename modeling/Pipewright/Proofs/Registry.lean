import Pipewright.Proofs.Operation.Signature
import Pipewright.Registry

/-! # Registries that were built
Every registry comes from the empty one by registering operations. In such a registry an operation
stands under its own name, and no two of its parameters have one name, the one that takes a progress
callback included. -/

namespace Pipewright

/-- The parameters of an operation have different names. -/
structure Operation.Distinct (o : Operation) : Prop where
  /-- No two wired parameters have one name. -/
  wired : (Keyed.keys o.parameters).Nodup
  /-- The parameter that takes a progress callback is no wired one. -/
  progress : ∀ name, o.progress? = some name → name ∉ Keyed.keys o.parameters

namespace Registration

variable {new : Registration} {o : Operation}

/-- The operation of a registration has its name, and what its checked signature has. -/
theorem operation_eq_ok_iff : new.operation = .ok o ↔
    ∃ checked, new.signature.check = .ok checked ∧
      o = ⟨new.name, checked.parameters, checked.returns, checked.progress?,
        Keyed.distinct new.dependencies, Keyed.distinct new.categories, new.implementation⟩ := by
  unfold operation
  cases new.signature.check with
  | error fault => simp
  | ok checked => simp [eq_comm]

/-- The parameters of a registered operation have different names. -/
theorem distinct_operation (e : new.operation = .ok o) : o.name = new.name ∧ o.Distinct := by
  obtain ⟨checked, ok, rfl⟩ := operation_eq_ok_iff.1 e
  obtain ⟨acceptable, -, wired, callback⟩ := Signature.check_eq_ok_iff.1 ok
  have names : Keyed.keys checked.parameters =
      (Signature.plain new.signature.parameters).map Prod.fst := by
    rw [← wired, List.map_map]
    rfl
  refine ⟨rfl, ?_, fun name taken => ?_⟩
  · rw [names]
    exact acceptable.distinct.sublist (List.filter_sublist.map _)
  · have among : name ∈ checked.progress?.toList := Option.mem_toList.2 taken
    rw [names]
    rw [callback] at among
    exact Signature.not_mem_plain acceptable.distinct among

end Registration

namespace Registry

/-- A registry that comes from the empty one by registering operations. -/
inductive Built : Registry → Prop where
  /-- There are no operations at first. -/
  | empty : Built .empty
  /-- An operation is registered. -/
  | register {r r' : Registry} (new : Registration) (before : Built r)
    (done : r.register new = .ok r') : Built r'

variable {r r' : Registry} {new : Registration} {name : String} {o : Operation}

/-- An operation is registered if its name is free and its signature is accepted; then it is put
under its name. -/
theorem register_eq_ok_iff : r.register new = .ok r' ↔
    r.operation? new.name = none ∧
      ∃ o, new.operation = .ok o ∧ r' = ⟨Keyed.insert new.name o r.operations⟩ := by
  unfold register
  split
  · next taken =>
    have : r.operation? new.name ≠ none := by
      unfold contains Keyed.contains at taken
      exact Option.ne_none_iff_isSome.2 taken
    simp [this]
  · next free =>
    have : r.operation? new.name = none := by
      unfold contains Keyed.contains at free
      exact Option.not_isSome_iff_eq_none.1 free
    cases new.operation with
    | error fault => simp [Except.map]
    | ok o => simp [Except.map, this, eq_comm]

/-- After a registration the new operation is found, and all that was found before. -/
theorem operation?_register (done : r.register new = .ok r') :
    r'.operation? name = some o ↔
      r.operation? name = some o ∨ new.name = name ∧ new.operation = .ok o := by
  obtain ⟨free, o', e, rfl⟩ := register_eq_ok_iff.1 done
  unfold operation? at free ⊢
  by_cases same : name = new.name
  · subst same
    simp [free, e]
  · rw [Keyed.lookup_insert_of_ne same]
    simp [Ne.symm same]

/-- In a built registry every operation stands under its name, and its parameters have different
names. -/
theorem Built.sound (h : r.Built) (found : r.operation? name = some o) :
    o.name = name ∧ o.Distinct := by
  induction h with
  | empty => cases found
  | register new before done ih =>
    rcases (operation?_register done).1 found with there | ⟨rfl, e⟩
    · exact ih there
    · exact Registration.distinct_operation e

end Registry

end Pipewright
