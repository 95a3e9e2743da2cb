import Pipewright.Operation.Basic

/-! # Recipes
Operations put together from building blocks: constants, arguments, a little arithmetic, and what
can be done with nodes. A recipe stops at the first block that fails. -/

namespace Pipewright

/-- How a count of vertices is changed. -/
inductive Scaling where
  /-- It is not. -/
  | none
  /-- It is multiplied by an argument, and the fraction is cut off. -/
  | times (argument : String)
  /-- It is divided by a number, and the fraction is cut off. -/
  | dividedBy (n : Int64)
deriving DecidableEq, Repr

/-- What an operation does. -/
inductive Recipe where
  /-- Return nothing. -/
  | nothing
  /-- Return a value. -/
  | const (d : Datum)
  /-- Return an argument of any kind. -/
  | argument (name : String)
  /-- Return a whole number. -/
  | int (name : String)
  /-- Return a floating-point number. -/
  | float (name : String)
  /-- Return a text. -/
  | text (name : String)
  /-- Return a truth value. -/
  | bool (name : String)
  /-- Return a node. -/
  | node (name : String)
  /-- Return plain data. -/
  | value (name : String)
  /-- Return the double of a whole number. -/
  | double (name : String)
  /-- Return the sum of two floating-point numbers. -/
  | sum (left right : String)
  /-- Return the scaled count of vertices in a node's content. -/
  | vertices (name : String) (scaling : Scaling)
  /-- Add a node, maybe with a count of vertices as content, and references to arguments. -/
  | create (c : NodeClass) (name : String) (count : Option Recipe)
    (references : List (String × String))
  /-- Remove a node. -/
  | remove (name : String)
  /-- Let a node reference another one. -/
  | reference (holder role target : String)
  /-- Return the content of the node of an id. -/
  | content (id : String)
  /-- Fail. -/
  | fail (message : String)
  /-- Return a map. -/
  | map (fields : List (String × Recipe))
  /-- Return an array. -/
  | array (items : List Recipe)
  /-- Follow recipes one after another, and return what the last one returns. -/
  | sequence (items : List Recipe)
  /-- Report progress. -/
  | report (pieceName : String) (fraction : Float) (piece pieces : Int64)
  /-- Return the text of the call. -/
  | describe

namespace Recipe

/-- Change the scene in a way that may fail. -/
def change {α : Type} (f : Scene Entries → Except SceneError (α × Scene Entries)) :
    ExceptT OperationError (StateM World) α := do
  let w ← get
  match f w.scene with
  | .ok (a, s) =>
    set { w with scene := s }
    return a
  | .error e => throw (.scene e)

/-- The value of an argument's view. -/
def lift {α : Type} : Except OperationError α → ExceptT OperationError (StateM World) α
  | .ok a => pure a
  | .error e => throw e

/-- The scaled count of vertices. -/
def scale (c : OperationCall) (count : Int64) : Scaling → Except OperationError Int64
  | .none => .ok count
  | .times name => (c.float name).map fun factor => (Float.ofInt count.toInt * factor).toInt64
  | .dividedBy n => .ok (count / n)

/-- The count of vertices in the content of a node. -/
def countOf (handle : NodeHandle) (content : Entries) : Except OperationError Int64 :=
  match Keyed.lookup "vertices" content with
  | some (.int n) => .ok n
  | _ => .error (.failed (handle.id ++ " has no vertices"))

/-- Let a node reference arguments. -/
def addReferences (c : OperationCall) (holder : NodeHandle) :
    List (String × String) → ExceptT OperationError (StateM World) Unit
  | [] => pure ()
  | (role, name) :: rest => do
    let target ← lift (c.node name)
    change fun s => (s.addReference holder.id role target.id).map fun s => ((), s)
    addReferences c holder rest

mutual

/-- Follow a recipe. -/
def follow (c : OperationCall) : Recipe → ExceptT OperationError (StateM World) Datum
  | .nothing => pure .unit
  | .const d => pure d
  | .argument name => lift (c.argument name)
  | .int name => lift ((c.int name).map .int)
  | .float name => lift ((c.float name).map .float)
  | .text name => lift ((c.text name).map .text)
  | .bool name => lift ((c.bool name).map .bool)
  | .node name => lift ((c.node name).map .node)
  | .value name => lift ((c.value name).map Value.toDatum)
  | .double name => lift ((c.int name).map fun n => .int (n * 2))
  | .sum left right => do
    let x ← lift (c.float left)
    let y ← lift (c.float right)
    return .float (x + y)
  | .vertices name scaling => do
    let handle ← lift (c.node name)
    let content ← change fun s => (s.content handle.id).map fun content => (content, s)
    let count ← lift (countOf handle content)
    return .int (← lift (scale c count scaling))
  | .create nodeClass name count references => do
    let handle ← change fun s => .ok (s.addNode nodeClass name [])
    followCount c handle count
    addReferences c handle references
    return .node handle
  | .remove name => do
    let handle ← lift (c.node name)
    change fun s => .ok (.bool (s.contains handle.id), s.removeNode handle.id)
  | .reference holder role target => do
    let holder ← lift (c.node holder)
    let target ← lift (c.node target)
    change fun s => (s.addReference holder.id role target.id).map fun s => (.unit, s)
  | .content id => change fun s => (s.content id).map fun content => (.map content, s)
  | .fail message => throw (.failed message)
  | .map fields => do return .map (Keyed.ofList (← followFields c fields))
  | .array items => do return .array (← followItems c items)
  | .sequence items => do return (← followItems c items).getLastD .unit
  | .report pieceName fraction piece pieces => do
    match c.progress? with
    | none => return .unit
    | some callback =>
      modify fun w => w.report callback pieceName fraction piece pieces
      return .unit
  | .describe => pure (.text (c.operation ++ " " ++ c.outline))

/-- Follow a recipe for the count of vertices of a node, if there is one. -/
def followCount (c : OperationCall) (handle : NodeHandle) :
    Option Recipe → ExceptT OperationError (StateM World) Unit
  | none => pure ()
  | some recipe => do
    let count ← follow c recipe
    change fun s => (s.setContent handle.id [("vertices", count)]).map fun s => ((), s)

/-- Follow recipes one after another. -/
def followItems (c : OperationCall) :
    List Recipe → ExceptT OperationError (StateM World) (List Datum)
  | [] => pure []
  | item :: items => do
    let d ← follow c item
    return d :: (← followItems c items)

/-- Follow the recipes of fields one after another. -/
def followFields (c : OperationCall) :
    List (String × Recipe) → ExceptT OperationError (StateM World) Entries
  | [] => pure []
  | (name, item) :: fields => do
    let d ← follow c item
    return (name, d) :: (← followFields c fields)

end

end Recipe

end Pipewright
