/-! # Node classes
Classes of managed nodes, and the handles of these nodes. A class carries the names of its ancestors,
nearest first, so that questions about descent need no table of classes. -/

namespace Pipewright

/-- A class of managed nodes with its ancestry. -/
structure NodeClass where
  /-- The class's own name. -/
  name : String
  /-- The names of the classes it descends from, nearest first. -/
  ancestors : List String
deriving DecidableEq, Repr

namespace NodeClass

/-- The root of every ancestry. -/
def root : NodeClass := ⟨"Node", []⟩

/-- The class that descends from `parent` directly. -/
def derived (name : String) (parent : NodeClass) : NodeClass :=
  ⟨name, parent.name :: parent.ancestors⟩

/-- The class of a name that descends from the root directly; the root's own name means the
root. -/
def named (name : String) : NodeClass := if name = root.name then root else derived name root

/-- The class it descends from directly. -/
def parent? (c : NodeClass) : Option NodeClass :=
  match c.ancestors with
  | [] => none
  | name :: rest => some ⟨name, rest⟩

@[simp] theorem parent?_derived (name : String) (p : NodeClass) :
    (derived name p).parent? = some p := rfl

/-- The classes whose names stand in an ancestry, each with the rest of it. -/
def chain : List String → List NodeClass
  | [] => []
  | name :: rest => ⟨name, rest⟩ :: chain rest

/-- The classes it descends from, nearest first, up to the root. -/
def parents (c : NodeClass) : List NodeClass := chain c.ancestors

/-- The class and all it descends from. -/
def lineage (c : NodeClass) : List NodeClass := c :: c.parents

/-- A lineage goes on with the lineage of the parent. -/
theorem parents_eq_lineage {c p : NodeClass} (h : c.parent? = some p) : c.parents = p.lineage := by
  obtain ⟨name, ancestors⟩ := c
  cases ancestors with
  | nil => simp [parent?] at h
  | cons a rest =>
    obtain rfl : (⟨a, rest⟩ : NodeClass) = p := by simpa [parent?] using h
    rfl

/-- A class descends from itself and from every class named among its ancestors. -/
def descendsFrom (c other : NodeClass) : Bool :=
  c.name == other.name || c.ancestors.contains other.name

@[simp] theorem descendsFrom_self (c : NodeClass) : c.descendsFrom c = true := by
  simp [descendsFrom]

theorem descendsFrom_parent {c p : NodeClass} (h : c.parent? = some p) :
    c.descendsFrom p = true := by
  obtain ⟨name, ancestors⟩ := c
  cases ancestors with
  | nil => simp [parent?] at h
  | cons a rest =>
    obtain rfl : (⟨a, rest⟩ : NodeClass) = p := by simpa [parent?] using h
    simp [descendsFrom]

end NodeClass

/-! ## Handles
What scripts hold of a managed node. A handle outlives the node; what is asked of the scene through a
handle whose node is gone fails. -/

/-- A handle of a managed node. -/
structure NodeHandle where
  /-- The id of the node. -/
  id : String
  /-- The class of the node. -/
  nodeClass : NodeClass
deriving DecidableEq, Repr

namespace NodeHandle

/-- The text that is shown for a handle. -/
def display (h : NodeHandle) : String := h.nodeClass.name ++ "(" ++ h.id ++ ")"

end NodeHandle

end Pipewright
