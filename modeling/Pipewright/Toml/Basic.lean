import Pipewright.Keyed

/-! # TOML values
The values of a settings document, and its tables as they grow line by line. A table remembers how
it came about, which decides what later lines may still add to it. -/

namespace Pipewright.Toml

/-- How a table came about. -/
inductive Origin where
  /-- It is written between braces; nothing can be added to it. -/
  | inline
  /-- It has a header of its own. -/
  | header
  /-- The header of a table inside it mentions it. -/
  | implied
  /-- The dotted key of an entry inside it mentions it. -/
  | dotted
deriving DecidableEq, Repr

/-- What stands under a key. -/
inductive Value where
  /-- A text. -/
  | text (s : String)
  /-- A whole number. -/
  | whole (n : Int)
  /-- A floating-point number. -/
  | real (x : Float)
  /-- A truth value. -/
  | flag (b : Bool)
  /-- A date, a time of day, or both. -/
  | moment
  /-- An array. -/
  | array (items : List Value)
  /-- A table, its entries in ascending order of their keys. -/
  | table (origin : Origin) (entries : List (String × Value))
  /-- Tables that share a header, oldest first. -/
  | tables (all : List (List (String × Value)))

/-- The entries of a table in ascending order of their keys. -/
abbrev Table := List (String × Value)

/-- A key of one or more parts. -/
structure Key where
  /-- All parts but the last. -/
  lead : List String
  /-- The last part. -/
  last : String

/-- What a line of a document says. -/
inductive Line where
  /-- The header of a table. -/
  | table (key : Key)
  /-- The header of one more of the tables that share it. -/
  | element (key : Key)
  /-- An entry of the table whose header came last. -/
  | entry (key : Key) (v : Value)

/-- Change the table at the end of a path. Tables that are missing on the way come about as the
path's kind says: by a dotted key, which passes through no table that has a header, or by a
header. -/
def within (dotted : Bool) (change : Origin → Table → Option Table) :
    List String → Origin → Table → Option Table
  | [], origin, t => change origin t
  | key :: path, _, t =>
    match Keyed.lookup key t with
    | none => do
      let origin := if dotted then Origin.dotted else .implied
      return Keyed.insert key (.table origin (← within dotted change path origin [])) t
    | some (.table .inline _) => none
    | some (.table origin inner) =>
      if dotted && origin == .header then none
      else do return Keyed.insert key (.table origin (← within dotted change path origin inner)) t
    | some (.tables all) => do
      let last ← within dotted change path .header (← all.getLast?)
      return Keyed.insert key (.tables (all.dropLast ++ [last])) t
    | some _ => none

/-- Put a value under a key that is not in use. What a dotted key leads to must have come about by
dotted keys alone. -/
def assign (key : Key) (v : Value) : Table → Option Table :=
  within true (fun origin t =>
    if Keyed.contains key.last t || (!key.lead.isEmpty && origin != .dotted) then none
    else some (Keyed.insert key.last v t)) key.lead .inline

/-- Open the table of a header, which may have been mentioned before, but only by headers of tables
inside it. -/
def openTable (key : Key) : Table → Option Table :=
  within false (fun _ t =>
    match Keyed.lookup key.last t with
    | none => some (Keyed.insert key.last (.table .header []) t)
    | some (.table .implied inner) => some (Keyed.insert key.last (.table .header inner) t)
    | some _ => none) key.lead .header

/-- Open one more of the tables that share a header. -/
def openElement (key : Key) : Table → Option Table :=
  within false (fun _ t =>
    match Keyed.lookup key.last t with
    | none => some (Keyed.insert key.last (.tables [[]]) t)
    | some (.tables all) => some (Keyed.insert key.last (.tables (all ++ [[]])) t)
    | some _ => none) key.lead .header

/-- The table that the lines of a document make up, below the table of the path that was opened
last. -/
def build (path : List String) (t : Table) : List Line → Option Table
  | [] => some t
  | .table key :: lines => do build (key.lead ++ [key.last]) (← openTable key t) lines
  | .element key :: lines => do build (key.lead ++ [key.last]) (← openElement key t) lines
  | .entry key v :: lines => do
    build path (← within false (fun _ inner => assign key v inner) path .header t) lines

/-- The table of entries between braces. -/
def inlineTable : Table → List (Key × Value) → Option Value
  | t, [] => some (.table .inline t)
  | t, (key, v) :: entries => do inlineTable (← assign key v t) entries

end Pipewright.Toml
