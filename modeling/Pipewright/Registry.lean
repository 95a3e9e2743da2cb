import Pipewright.Operation.Signature

/-! # The registry
The operations that pipelines can use, by name. Every registered operation has an acceptable
signature, so whoever finds one here need not check it again. -/

namespace Pipewright

/-- Why an operation cannot be registered. -/
inductive RegistrationError where
  /-- The name is taken. -/
  | duplicateName (name : String)
  /-- The signature is not acceptable. -/
  | signature (name : String) (fault : SignatureFault)
deriving DecidableEq, Repr

/-- The text of an error. -/
def RegistrationError.message : RegistrationError → String
  | .duplicateName name => "An operation named '" ++ name ++ "' is already registered"
  | .signature name fault =>
    "Invalid signature for operation '" ++ name ++ "': " ++ fault.message

/-- The word for an error. -/
def RegistrationError.kind : RegistrationError → String
  | .duplicateName _ => "DuplicateName"
  | .signature _ _ => "Signature"

/-- What is registered: an operation whose signature is not yet checked. -/
structure Registration where
  /-- The name of the operation. -/
  name : String
  /-- Its signature. -/
  signature : Signature
  /-- What it depends on. -/
  dependencies : List String
  /-- The categories it belongs to. -/
  categories : List String
  /-- What it does. -/
  implementation : OperationCall → ExceptT OperationError (StateM World) Datum

namespace Registration

/-- The operation of a registration whose signature is acceptable. -/
def operation (r : Registration) : Except RegistrationError Operation :=
  match r.signature.check with
  | .error fault => .error (.signature r.name fault)
  | .ok checked =>
    .ok
      { name := r.name
        parameters := checked.parameters
        returns := checked.returns
        progress? := checked.progress?
        dependencies := Keyed.distinct r.dependencies
        categories := Keyed.distinct r.categories
        implementation := r.implementation }

end Registration

/-- The registered operations by name. -/
structure Registry where
  /-- The operations in ascending order of their names. -/
  operations : List (String × Operation)

namespace Registry

/-- The registry without operations. -/
def empty : Registry := ⟨[]⟩

/-- A registered operation. -/
def operation? (r : Registry) (name : String) : Option Operation :=
  Keyed.lookup name r.operations

/-- Whether an operation is registered. -/
def contains (r : Registry) (name : String) : Bool := Keyed.contains name r.operations

/-- The names of all operations. -/
def names (r : Registry) : List String := Keyed.keys r.operations

/-- The number of operations. -/
def size (r : Registry) : Nat := r.operations.length

/-- Register an operation. -/
def register (r : Registry) (new : Registration) : Except RegistrationError Registry :=
  if r.contains new.name then .error (.duplicateName new.name)
  else new.operation.map fun o => ⟨Keyed.insert new.name o r.operations⟩

/-- Register operations one after another. What comes before the first one that cannot be
registered stays registered. -/
def registerAll (r : Registry) : List Registration → Option RegistrationError × Registry
  | [] => (none, r)
  | new :: rest =>
    match r.register new with
    | .ok r => r.registerAll rest
    | .error e => (some e, r)

/-- The types of the parameters and of the result of all operations, operation by operation. -/
def types (r : Registry) : List DataType :=
  r.operations.flatMap fun entry =>
    entry.2.parameters.map Prod.snd ++ [entry.2.returns]

/-- Each type that a parameter or a result has below its annotations, once. -/
def pipelinedTypes (r : Registry) : List DataType :=
  r.types.foldl (fun found t =>
    let t := t.unannotated
    if found.contains t then found else found ++ [t]) []

/-- Add the classes of a lineage to a list of classes, unless they are there. -/
def addLineage (found : List NodeClass) (c : NodeClass) : List NodeClass :=
  c.lineage.foldl (fun found c => if found.contains c then found else found ++ [c]) found

/-- Each class that a parameter or a result mentions, and each one it descends from, once. -/
def nodeClasses (r : Registry) : List NodeClass :=
  (r.types.flatMap DataType.mentionedClasses).foldl addLineage []

end Registry

end Pipewright
