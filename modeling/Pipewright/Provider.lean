import Pipewright.Registry

/-! # Providers
Whoever brings operations along registers them in a registry. What comes of one registration may
decide about the next one, and what was registered before something fails stays registered. -/

namespace Pipewright

/-- What is done by somebody who brings operations along. -/
inductive Provider where
  /-- Nothing more is done; it may have failed. -/
  | finish (fault? : Option RegistrationError)
  /-- The registry is looked at. -/
  | look (next : Registry → Provider)
  /-- An operation is registered. What is done next may depend on the error, if there is one. -/
  | register (new : Registration) (next : Option RegistrationError → Provider)

namespace Provider

/-- Let a provider do what it does. -/
def run (r : Registry) : Provider → Option RegistrationError × Registry
  | .finish fault? => (fault?, r)
  | .look next => (next r).run r
  | .register new next =>
    match r.register new with
    | .ok r => (next none).run r
    | .error e => (next (some e)).run r

/-- Register operations one after another, and give up at the first one that cannot be. -/
def ofList : List Registration → Provider
  | [] => .finish none
  | new :: rest => .register new fun
    | none => ofList rest
    | some e => .finish (some e)

end Provider

namespace Registry

/-- Let providers do what they do, one after another until one fails. -/
def consult (r : Registry) : List Provider → Option RegistrationError × Registry
  | [] => (none, r)
  | p :: rest =>
    match p.run r with
    | (none, r) => r.consult rest
    | (some e, r) => (some e, r)

/-- Registering a list of operations is what the provider of the list does. -/
theorem run_ofList (r : Registry) (news : List Registration) :
    (Provider.ofList news).run r = r.registerAll news := by
  induction news generalizing r with
  | nil => rfl
  | cons new rest ih =>
    unfold Provider.ofList Provider.run registerAll
    cases r.register new with
    | ok r => exact ih r
    | error e => rfl

/-- A way to change a registry. -/
inductive Call where
  /-- An operation is registered. -/
  | register (new : Registration)
  /-- Providers register their operations. -/
  | registerAll (providers : List Provider)

/-- Make a change, or what of it comes before it fails. -/
def perform (r : Registry) : Call → Registry
  | .register new =>
    match r.register new with
    | .ok r => r
    | .error _ => r
  | .registerAll providers => (r.consult providers).2

/-- Make changes one after another. -/
def performAll (r : Registry) (calls : List Call) : Registry := calls.foldl perform r

end Registry

end Pipewright
