import Pipewright.Proofs.Registry
import Pipewright.Provider

/-! # Registries only grow
Whatever is done to a registry, an operation that is registered stays as it is: nothing takes its
name away from it, also if something fails. -/

namespace Pipewright

namespace Registry

variable {r r' r'' : Registry}

/-- Every operation of a registry is in another one under the same name. -/
def Keeps (r r' : Registry) : Prop :=
  ∀ name o, r.operation? name = some o → r'.operation? name = some o

namespace Keeps

/-- A registry keeps its own operations. -/
theorem refl (r : Registry) : r.Keeps r := fun _ _ found => found

/-- What is kept twice is kept. -/
theorem trans (h : r.Keeps r') (h' : r'.Keeps r'') : r.Keeps r'' :=
  fun name o found => h' name o (h name o found)

end Keeps

/-- A registered operation is added, and all others are kept. -/
theorem keeps_of_register {new : Registration} (done : r.register new = .ok r') : r.Keeps r' :=
  fun _ _ found => (operation?_register done).2 (.inl found)

/-- What a provider does keeps all operations. -/
theorem keeps_run (r : Registry) (p : Provider) : r.Keeps (p.run r).2 := by
  induction p generalizing r with
  | finish fault? => exact .refl r
  | look next ih => exact ih r r
  | register new next ih =>
    unfold Provider.run
    cases done : r.register new with
    | ok r' => exact (keeps_of_register done).trans (ih none r')
    | error e => exact ih (some e) r

/-- What several providers do keeps all operations, also if one of them fails. -/
theorem keeps_consult (r : Registry) (providers : List Provider) :
    r.Keeps (r.consult providers).2 := by
  induction providers generalizing r with
  | nil => exact .refl r
  | cons p rest ih =>
    have first := keeps_run r p
    unfold consult
    cases e : p.run r with
    | mk fault? r' =>
      rw [e] at first
      cases fault? with
      | none => exact first.trans (ih r')
      | some fault => exact first

/-- A change keeps all operations. -/
theorem keeps_perform (r : Registry) (call : Call) : r.Keeps (r.perform call) := by
  cases call with
  | register new =>
    unfold perform
    dsimp only
    split
    · next done => exact keeps_of_register done
    · exact .refl r
  | registerAll providers => exact keeps_consult r providers

/-- Changes one after another keep all operations. -/
theorem keeps_performAll (r : Registry) (calls : List Call) : r.Keeps (r.performAll calls) := by
  induction calls generalizing r with
  | nil => exact .refl r
  | cons call calls ih => exact (keeps_perform r call).trans (ih (r.perform call))

end Registry

end Pipewright
