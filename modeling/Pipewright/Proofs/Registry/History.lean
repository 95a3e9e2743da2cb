import Pipewright.Proofs.Operation.Signature
import Pipewright.Proofs.Registry.Growth

/-! # What registries hold
A registry that was changed in any way, from the empty one on, holds exactly the operations of the
registrations that were accepted on the way, whoever made them. So whatever the check of signatures
guarantees of one operation holds of every operation in it. -/

namespace Pipewright

/-- An operation is what a signature declares. -/
structure Operation.Realizes (o : Operation) (s : Signature) : Prop where
  /-- It returns what is declared. -/
  returns : s.returns? = some o.returns
  /-- It returns something. -/
  something : o.returns.unannotated ≠ .unit
  /-- The wired parameters are those that are declared with another type than that of callbacks, in
  the order in which they are declared. -/
  wired : o.parameters.map Signature.declared = Signature.plain s.parameters
  /-- The parameter that takes a progress callback is the only one that is declared so. -/
  callback : o.progress?.toList = (Signature.callbacks s.parameters).map Prod.fst
  /-- No wired parameter takes a progress callback. -/
  no_callback : ∀ p ∈ o.parameters, p.2.unannotated ≠ .progress
  /-- No two parameters have one name. -/
  distinct : o.Distinct

namespace Registration

variable {new : Registration} {o : Operation}

/-- The operation of a registration has its name and is what its signature declares. -/
theorem realizes_of_operation (e : new.operation = .ok o) :
    o.name = new.name ∧ o.Realizes new.signature := by
  obtain ⟨named, distinct⟩ := distinct_operation e
  obtain ⟨checked, ok, rfl⟩ := operation_eq_ok_iff.1 e
  obtain ⟨acceptable, returns, wired, callback⟩ := Signature.check_eq_ok_iff.1 ok
  refine ⟨named, returns, ?_, wired, callback, fun p m taken => ?_, distinct⟩
  · obtain ⟨t, returns', something⟩ := acceptable.returns
    cases returns.symm.trans returns'
    exact something
  · have there : Signature.declared p ∈ Signature.plain new.signature.parameters :=
      wired ▸ List.mem_map_of_mem m
    have plain := (List.mem_filter.1 there).2
    simp [Signature.takesProgress, Signature.declared, Signature.isProgress_iff.2 taken] at plain

end Registration

namespace Registry

variable {r r' : Registry} {new : Registration}

/-! ## One registration -/

/-- A registration fails exactly if its name is taken or its signature is rejected. -/
theorem exists_register_error_iff : (∃ e, r.register new = .error e) ↔
    (∃ o, r.operation? new.name = some o) ∨ ∃ fault, new.signature.check = .error fault := by
  rw [← Option.ne_none_iff_exists']
  constructor
  · rintro ⟨e, failed⟩
    by_contra fine
    obtain ⟨free, accepted⟩ := not_or.1 fine
    cases checked : new.signature.check with
    | error fault => exact accepted ⟨fault, checked⟩
    | ok signature =>
      have done := register_eq_ok_iff.2
        ⟨not_not.1 free, _, Registration.operation_eq_ok_iff.2 ⟨_, checked, rfl⟩, rfl⟩
      cases failed.symm.trans done
  · intro cause
    cases e : r.register new with
    | error fault => exact ⟨fault, rfl⟩
    | ok r' =>
      obtain ⟨free, o, made, -⟩ := register_eq_ok_iff.1 e
      obtain ⟨checked, ok, -⟩ := Registration.operation_eq_ok_iff.1 made
      rcases cause with taken | ⟨fault, rejected⟩
      · exact absurd free taken
      · cases ok.symm.trans rejected

/-- A registration that succeeds is carried out. -/
theorem perform_of_ok (done : r.register new = .ok r') : r.perform (.register new) = r' := by
  simp only [perform, done]

/-- A registration that fails changes nothing. -/
theorem perform_of_error {e : RegistrationError} (failed : r.register new = .error e) :
    r.perform (.register new) = r := by
  simp only [perform, failed]

/-- A registration keeps the operations in the order of their names. -/
theorem sorted_register (done : r.register new = .ok r') (sorted : Keyed.Sorted r.operations) :
    Keyed.Sorted r'.operations := by
  obtain ⟨-, o, -, rfl⟩ := register_eq_ok_iff.1 done
  exact sorted.insert_text _ _

/-! ## Registrations one after another -/

/-- Registering goes on behind registrations that all succeed. -/
theorem registerAll_append {before after : List Registration}
    (done : r.registerAll before = (none, r')) :
    r.registerAll (before ++ after) = r'.registerAll after := by
  induction before generalizing r with
  | nil =>
    cases done
    rfl
  | cons new rest ih =>
    unfold registerAll at done
    rw [List.cons_append, registerAll]
    cases e : r.register new with
    | error fault =>
      rw [e] at done
      cases done
    | ok r₁ =>
      rw [e] at done
      exact ih done

/-- After registrations that all succeed their operations are found, and all that was found
before. -/
theorem operation?_registerAll {news : List Registration}
    (done : r.registerAll news = (none, r')) {name : String} {o : Operation} :
    r'.operation? name = some o ↔
      r.operation? name = some o ∨ ∃ new ∈ news, new.name = name ∧ new.operation = .ok o := by
  induction news generalizing r with
  | nil =>
    cases done
    simp
  | cons new rest ih =>
    unfold registerAll at done
    cases e : r.register new with
    | error fault =>
      rw [e] at done
      cases done
    | ok r₁ =>
      rw [e] at done
      rw [ih done, operation?_register e]
      simp [or_assoc]

/-- Registrations that all succeed keep the operations in the order of their names. -/
theorem sorted_registerAll {news : List Registration} (done : r.registerAll news = (none, r'))
    (sorted : Keyed.Sorted r.operations) : Keyed.Sorted r'.operations := by
  induction news generalizing r with
  | nil =>
    cases done
    exact sorted
  | cons new rest ih =>
    unfold registerAll at done
    cases e : r.register new with
    | error fault =>
      rw [e] at done
      cases done
    | ok r₁ =>
      rw [e] at done
      exact ih done (sorted_register e sorted)

end Registry

/-! ## Accepted registrations -/

/-- The registrations of a provider that succeed, in the order in which they are made. -/
def Provider.accepted (r : Registry) : Provider → List Registration
  | .finish _ => []
  | .look next => (next r).accepted r
  | .register new next =>
    match r.register new with
    | .ok r => new :: (next none).accepted r
    | .error e => (next (some e)).accepted r

namespace Registry

/-- The registrations of several providers that succeed; behind one that fails none is made. -/
def acceptedOf (r : Registry) : List Provider → List Registration
  | [] => []
  | p :: rest =>
    match p.run r with
    | (none, r') => p.accepted r ++ r'.acceptedOf rest
    | (some _, _) => p.accepted r

/-- The registrations of a change that succeed. -/
def acceptedIn (r : Registry) : Call → List Registration
  | .register new => Provider.accepted r (.register new fun _ => .finish none)
  | .registerAll providers => r.acceptedOf providers

/-- The registrations that succeed when changes are made one after another. -/
def accepted (r : Registry) : List Call → List Registration
  | [] => []
  | call :: calls => r.acceptedIn call ++ (r.perform call).accepted calls

/-- A provider does to a registry what its accepted registrations do. -/
theorem registerAll_accepted_run (r : Registry) (p : Provider) :
    r.registerAll (p.accepted r) = (none, (p.run r).2) := by
  induction p generalizing r with
  | finish fault? => rfl
  | look next ih => exact ih r r
  | register new next ih =>
    unfold Provider.accepted Provider.run
    cases e : r.register new with
    | ok r' =>
      rw [registerAll, e]
      exact ih none r'
    | error fault => exact ih (some fault) r

/-- Several providers do to a registry what their accepted registrations do. -/
theorem registerAll_acceptedOf (r : Registry) (providers : List Provider) :
    r.registerAll (r.acceptedOf providers) = (none, (r.consult providers).2) := by
  induction providers generalizing r with
  | nil => rfl
  | cons p rest ih =>
    have first := registerAll_accepted_run r p
    unfold acceptedOf consult
    cases e : p.run r with
    | mk fault? r' =>
      rw [e] at first
      cases fault? with
      | none => exact (registerAll_append first).trans (ih r')
      | some fault => exact first

/-- A change does to a registry what its accepted registrations do. -/
theorem registerAll_acceptedIn (r : Registry) (call : Call) :
    r.registerAll (r.acceptedIn call) = (none, r.perform call) := by
  cases call with
  | register new =>
    refine (registerAll_accepted_run r (.register new fun _ => .finish none)).trans ?_
    unfold Provider.run
    cases e : r.register new with
    | ok r' => exact congrArg (Prod.mk none) (perform_of_ok e).symm
    | error fault => exact congrArg (Prod.mk none) (perform_of_error e).symm
  | registerAll providers => exact registerAll_acceptedOf r providers

/-- Changes one after another do to a registry what their accepted registrations do. -/
theorem registerAll_accepted (r : Registry) (calls : List Call) :
    r.registerAll (r.accepted calls) = (none, r.performAll calls) := by
  induction calls generalizing r with
  | nil => rfl
  | cons call calls ih =>
    exact (registerAll_append (registerAll_acceptedIn r call)).trans (ih (r.perform call))

/-! ## Well-formed registries -/

/-- A registry holds the operations of some registrations, as their signatures declare them. -/
structure WellFormed (r : Registry) (news : List Registration) : Prop where
  /-- The operations are in the order of their names. -/
  sorted : Keyed.Sorted r.operations
  /-- The operations are those that were registered, each under the name it was registered with. -/
  registered : ∀ name o, (name, o) ∈ r.operations ↔
    ∃ new ∈ news, new.name = name ∧ new.operation = .ok o
  /-- Every operation has its own name, and is what the signature declares that it was registered
  with. -/
  realized : ∀ name o, (name, o) ∈ r.operations →
    o.name = name ∧ ∃ new ∈ news, new.name = name ∧ o.Realizes new.signature

/-- Whatever changes are made to the empty registry, it is well-formed; a registration that fails
changes nothing, and one that succeeds keeps what is there. Of new operations exactly those are
rejected whose return type is missing or that of nothing, that have a parameter without a type or
two of one name, or that take two progress callbacks. -/
theorem wellFormed_performAll (calls : List Call) :
    let r := empty.performAll calls
    r.WellFormed (empty.accepted calls) ∧
      (∀ new e, r.register new = .error e → r.perform (.register new) = r) ∧
      (∀ new r', r.register new = .ok r' →
        r.perform (.register new) = r' ∧ ∀ entry ∈ r.operations, entry ∈ r'.operations) ∧
      (∀ new, (∃ e, r.register new = .error e) ↔
        (∃ o, r.operation? new.name = some o) ∨ ∃ fault, new.signature.check = .error fault) ∧
      ∀ s : Signature, (∃ fault, s.check = .error fault) ↔
        s.returns? = none ∨ (∃ t, s.returns? = some t ∧ t.unannotated = .unit) ∨
          (∃ name, (name, none) ∈ s.parameters) ∨ ¬ (s.parameters.map Prod.fst).Nodup ∨
          2 ≤ (Signature.callbacks s.parameters).length := by
  intro r
  have done : empty.registerAll (empty.accepted calls) = (none, r) :=
    registerAll_accepted empty calls
  have sorted : Keyed.Sorted r.operations := sorted_registerAll done List.Pairwise.nil
  have registered : ∀ name o, (name, o) ∈ r.operations ↔
      ∃ new ∈ empty.accepted calls, new.name = name ∧ new.operation = .ok o := by
    intro name o
    have found : r.operation? name = some o ↔ _ := operation?_registerAll done
    have nothing : empty.operation? name = none := rfl
    rw [nothing, operation?, sorted.lookup_eq_some_iff String.lt_irrefl] at found
    simpa using found
  refine ⟨⟨sorted, registered, fun name o m => ?_⟩, fun new e => perform_of_error,
    fun new r' done' => ⟨perform_of_ok done', fun entry m => ?_⟩,
    fun new => exists_register_error_iff, fun s => Signature.exists_fault_iff⟩
  · obtain ⟨new, there, rfl, e⟩ := (registered name o).1 m
    obtain ⟨named, realizes⟩ := Registration.realizes_of_operation e
    exact ⟨named, new, there, rfl, realizes⟩
  · have found := (sorted.lookup_eq_some_iff String.lt_irrefl).2 m
    exact Keyed.mem_of_lookup ((operation?_register done').2 (.inl found))

end Registry

end Pipewright
