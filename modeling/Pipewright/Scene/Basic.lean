import Pipewright.Keyed
import Pipewright.NodeClass
import Pipewright.Text.Quoted

/-! # The scene
The store of managed nodes. A node has a class, a name, content of any kind, and references to other
nodes, each under a role. Removing a node removes the references to it. -/

namespace Pipewright

universe u

/-- What is stored of a node. -/
structure NodeRecord (α : Type u) where
  /-- The class of the node. -/
  nodeClass : NodeClass
  /-- The name of the node. -/
  name : String
  /-- The content of the node. -/
  content : α
  /-- The ids of the nodes it references, in the order in which they were added, by role. -/
  references : List (String × List String)

/-- The store of managed nodes. -/
structure Scene (α : Type u) where
  /-- The nodes by their ids. -/
  records : List (String × NodeRecord α)
  /-- How many nodes of a class were ever added, by the name of the class. -/
  counters : List (String × Nat)

/-- Why something cannot be done to the scene. -/
inductive SceneError where
  /-- There is no node of an id. -/
  | nodeNotFound (id : String)
  /-- Content is copied between nodes of one class only. -/
  | classMismatch (source target : String)
deriving DecidableEq, Repr

/-- The text of an error. -/
def SceneError.message : SceneError → String
  | .nodeNotFound id => "Node not found in scene: " ++ id
  | .classMismatch source target => "Cannot copy a " ++ source ++ " into a " ++ target

/-- The word for an error. -/
def SceneError.kind : SceneError → String
  | .nodeNotFound _ => "NodeNotFound"
  | .classMismatch _ _ => "ClassMismatch"

/-- The role of references to display properties. -/
def displayRole : String := "display"

/-- The role of references to storage properties. -/
def storageRole : String := "storage"

/-- Whether references of a role stay with a node when content is copied into it. -/
def isKeptRole (role : String) : Bool := role == displayRole || role == storageRole

namespace NodeRecord

variable {α : Type u}

/-- The ids of the nodes referenced under a role. -/
def targets (r : NodeRecord α) (role : String) : List String :=
  (Keyed.lookup role r.references).getD []

/-- Drop every reference to a node, and every role under which none is left. -/
def forget (r : NodeRecord α) (id : String) : NodeRecord α :=
  let left := Keyed.mapValues (List.filter fun target => decide (target ≠ id)) r.references
  { r with references := left.filter fun entry => !entry.2.isEmpty }

/-- Reference a node under a role, unless it is so already. -/
def addTarget (r : NodeRecord α) (role target : String) : NodeRecord α :=
  let found := r.targets role
  let targets := if found.contains target then found else found ++ [target]
  { r with references := Keyed.insert role targets r.references }

/-- Take over the content of another node and its references, but for the roles that stay. -/
def takeOver (r source : NodeRecord α) : NodeRecord α :=
  let taken := source.references.filter fun entry => !isKeptRole entry.1
  let kept := r.references.filter fun entry => isKeptRole entry.1
  { r with
    content := source.content
    references := kept.foldl (fun stored entry => Keyed.insert entry.1 entry.2 stored) taken }

end NodeRecord

namespace Scene

variable {α : Type u}

/-- The scene without nodes. -/
def empty : Scene α := ⟨[], []⟩

/-! ## Reading -/

/-- What is stored of a node. -/
def record? (s : Scene α) (id : String) : Option (NodeRecord α) := Keyed.lookup id s.records

/-- What is stored of a node that must be there. -/
def record (s : Scene α) (id : String) : Except SceneError (NodeRecord α) :=
  match s.record? id with
  | some r => .ok r
  | none => .error (.nodeNotFound id)

/-- Whether a node is there. -/
def contains (s : Scene α) (id : String) : Bool := Keyed.contains id s.records

/-- The ids of all nodes. -/
def ids (s : Scene α) : List String := Keyed.keys s.records

/-- The number of nodes. -/
def size (s : Scene α) : Nat := s.records.length

/-- The handle of a node. -/
def handle (s : Scene α) (id : String) : Except SceneError NodeHandle :=
  (s.record id).map fun r => ⟨id, r.nodeClass⟩

/-- The name of a node. -/
def name (s : Scene α) (id : String) : Except SceneError String :=
  (s.record id).map NodeRecord.name

/-- The content of a node. -/
def content (s : Scene α) (id : String) : Except SceneError α :=
  (s.record id).map NodeRecord.content

/-- The roles under which a node references others. -/
def roles (s : Scene α) (holder : String) : Except SceneError (List String) :=
  (s.record holder).map fun r => Keyed.keys r.references

/-- The ids of the nodes that a node references under a role. -/
def references (s : Scene α) (holder role : String) : Except SceneError (List String) :=
  (s.record holder).map fun r => r.targets role

/-- Whether a node references another under a role. -/
def hasReference (s : Scene α) (holder role target : String) : Bool :=
  match s.record? holder with
  | some r => (r.targets role).contains target
  | none => false

/-! ## Changing -/

/-- Add a node. Its id is the name of its class and how many nodes of the class there have been. -/
def addNode (s : Scene α) (c : NodeClass) (name : String) (content : α) :
    NodeHandle × Scene α :=
  let count := (Keyed.lookup c.name s.counters).getD 0 + 1
  let id := c.name ++ toString count
  (⟨id, c⟩,
    { records := Keyed.insert id ⟨c, name, content, []⟩ s.records
      counters := Keyed.insert c.name count s.counters })

/-- Remove a node and every reference to it, if it is there. -/
def removeNode (s : Scene α) (id : String) : Scene α :=
  if s.contains id then
    { s with records := Keyed.mapValues (NodeRecord.forget · id) (Keyed.erase id s.records) }
  else s

/-- Change what is stored of a node that must be there. -/
def update (s : Scene α) (id : String) (f : NodeRecord α → NodeRecord α) :
    Except SceneError (Scene α) :=
  (s.record id).map fun _ => { s with records := Keyed.modify id f s.records }

/-- Change the name of a node. -/
def setName (s : Scene α) (id name : String) : Except SceneError (Scene α) :=
  s.update id fun r => { r with name := name }

/-- Change the content of a node. -/
def setContent (s : Scene α) (id : String) (content : α) : Except SceneError (Scene α) :=
  s.update id fun r => { r with content := content }

/-- Let a node reference another under a role. -/
def addReference (s : Scene α) (holder role target : String) : Except SceneError (Scene α) := do
  let _ ← s.record target
  s.update holder fun r => r.addTarget role target

/-- Copy the content and the references of a node into another one of the same class. -/
def copyContent (s : Scene α) (source target : String) : Except SceneError (Scene α) := do
  let src ← s.record source
  let dest ← s.record target
  if src.nodeClass.name = dest.nodeClass.name then
    s.update target fun r => r.takeOver src
  else throw (.classMismatch src.nodeClass.name dest.nodeClass.name)

/-- The text of a scene. -/
def outline (s : Scene α) : String :=
  "Scene \x7b nodes: " ++ Text.quotedList s.ids ++ " \x7d"

end Scene

end Pipewright
