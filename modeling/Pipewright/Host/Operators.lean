import Pipewright.Datum.Text

/-! # Operators
What the operators of the script language and the ways into containers mean. Where they mean
nothing, there is no result. -/

namespace Pipewright.Datum

/-! ## Comparisons -/

mutual

/-- Whether two values are equal. Values of different kinds are not, but for numbers; of what the
host hands out only types can be compared. -/
def equal? : Datum → Datum → Option Bool
  | .unit, .unit => some true
  | .bool a, .bool b => some (a == b)
  | .int a, .int b => some (a == b)
  | .float a, .float b => some (a == b)
  | .int a, .float b => some (Float.ofInt a.toInt == b)
  | .float a, .int b => some (a == Float.ofInt b.toInt)
  | .text a, .text b => some (a == b)
  | .type a, .type b => some (a == b)
  | .array as, .array bs => equalItems? as bs
  | .map as, .map bs => equalEntries? as bs
  | a, b => if a.kind = b.kind then none else some false

/-- Whether two arrays are equal. -/
def equalItems? : List Datum → List Datum → Option Bool
  | [], [] => some true
  | a :: as, b :: bs =>
    match equal? a b with
    | some true => equalItems? as bs
    | result => result
  | _, _ => some false

/-- Whether two maps are equal. -/
def equalEntries? : List (String × Datum) → List (String × Datum) → Option Bool
  | [], [] => some true
  | (k, a) :: as, (k', b) :: bs =>
    if k = k' then
      match equal? a b with
      | some true => equalEntries? as bs
      | result => result
    else some false
  | _, _ => some false

end

/-- Whether two values differ. -/
def differ? (a b : Datum) : Option Bool :=
  match a, b with
  | .type _, .type _ => none
  | a, b => (equal? a b).map Bool.not

/-- Whether a value is greater than another. Of values of different kinds none is, but for
numbers. -/
def greater? : Datum → Datum → Option Bool
  | .unit, .unit => some false
  | .bool a, .bool b => some (a && !b)
  | .int a, .int b => some (b < a)
  | .float a, .float b => some (b < a)
  | .int a, .float b => some (b < Float.ofInt a.toInt)
  | .float a, .int b => some (Float.ofInt b.toInt < a)
  | .text a, .text b => some (b < a)
  | a, b => if a.kind = b.kind then none else some false

/-! ## Arithmetic -/

/-- The word of a whole number, if 64 bits hold it. -/
def ofInt? (n : Int) : Option Datum :=
  (word? n).map .int

/-- The sum of numbers, and one text, array or map behind another. -/
def plus? : Datum → Datum → Option Datum
  | .int a, .int b => ofInt? (a.toInt + b.toInt)
  | .float a, .float b => some (.float (a + b))
  | .int a, .float b => some (.float (Float.ofInt a.toInt + b))
  | .float a, .int b => some (.float (a + Float.ofInt b.toInt))
  | .array as, .array bs => some (.array (as ++ bs))
  | .map as, .map bs =>
    some (.map (bs.foldl (fun stored entry => Keyed.insert entry.1 entry.2 stored) as))
  | .text a, b => some (.text (a ++ b.display))
  | a, .text b => some (.text (a.display ++ b))
  | _, _ => none

/-- The difference of numbers. -/
def minus? : Datum → Datum → Option Datum
  | .int a, .int b => ofInt? (a.toInt - b.toInt)
  | .float a, .float b => some (.float (a - b))
  | .int a, .float b => some (.float (Float.ofInt a.toInt - b))
  | .float a, .int b => some (.float (a - Float.ofInt b.toInt))
  | _, _ => none

/-- The value that is left when a value is added to a variable: an array takes any other value as
one more item. -/
def increase? : Datum → Datum → Option Datum
  | .array as, .array bs => some (.array (as ++ bs))
  | .array as, b => some (.array (as ++ [b]))
  | a, b => plus? a b

/-- The number of opposite sign. -/
def negate? : Datum → Option Datum
  | .int n => ofInt? (-n.toInt)
  | .float x => some (.float (-x))
  | _ => none

/-! ## Parts -/

/-- One step into a container. -/
inductive Step where
  /-- To a field. -/
  | field (name : String)
  /-- To an item or entry. -/
  | key (d : Datum)

/-- The place in an array that an index means; below zero it counts from the end. -/
def position? (size : Nat) (index : Int64) : Option Nat :=
  let i : Int := if index < 0 then size + index.toInt else index.toInt
  if 0 ≤ i && i < size then some i.toNat else none

/-- A field of a value. A map without an entry holds nothing there. -/
def field? (d : Datum) (name : String) : Option Datum :=
  match d with
  | .map entries => some ((Keyed.lookup name entries).getD .unit)
  | .node handle =>
    if name = "id" then some (.text handle.id)
    else if name = "class_name" then some (.text handle.nodeClass.name)
    else none
  | .operation registered => if name = "name" then some (.text registered) else none
  | _ => none

/-- An item or an entry of a value. -/
def item? (d key : Datum) : Option Datum :=
  match d, key with
  | .array items, .int index => (position? items.length index).bind (items[·]?)
  | .map entries, .text name => some ((Keyed.lookup name entries).getD .unit)
  | _, _ => none

/-- What a step leads to. -/
def step? (d : Datum) : Step → Option Datum
  | .field name => d.field? name
  | .key key => d.item? key

/-- What several steps lead to. -/
def follow? (d : Datum) : List Step → Option Datum
  | [] => some d
  | step :: steps => (d.step? step).bind (·.follow? steps)

/-- Change what several steps lead to. Only maps and arrays can be changed; the last step may lead
to a new entry of a map. -/
def update? (f : Datum → Option Datum) : List Step → Datum → Option Datum
  | [], d => f d
  | step :: steps, d =>
    match d, step with
    | .map entries, .field name => do
      let new ← update? f steps ((Keyed.lookup name entries).getD .unit)
      return .map (Keyed.insert name new entries)
    | .map entries, .key (.text name) => do
      let new ← update? f steps ((Keyed.lookup name entries).getD .unit)
      return .map (Keyed.insert name new entries)
    | .array items, .key (.int index) => do
      let i ← position? items.length index
      let new ← update? f steps (items.getD i .unit)
      return .array (items.set i new)
    | _, _ => none

end Pipewright.Datum
