import Pipewright.Unit.Fault
import Pipewright.Unit.Spelling

/-! # Bindings
Where a slot of a generated program gets its value from: a literal, or a variable and fields of what
it holds. A parameter slot that other slots are fed from passes on what feeds it. -/

namespace Pipewright

open Script (Expr)

/-- A field of a value, behind a dot if its name is an identifier. -/
def Script.Expr.member (target : Expr) (name : String) : Expr :=
  if Script.isIdentifier name then .field target name else .index target (.str name)

/-- A variable and the way to a field of what it holds. -/
structure Access where
  /-- The variable. -/
  base : String
  /-- The names of the fields, from the outside in. -/
  path : List String
deriving DecidableEq, Repr

namespace Access

/-- A whole variable. -/
def whole (name : String) : Access := ⟨name, []⟩

/-- A field of what is accessed. -/
def field (a : Access) (name : String) : Access := ⟨a.base, a.path ++ [name]⟩

/-- The expression that reads what is accessed. -/
def expr (a : Access) : Expr := a.path.foldl Expr.member (.var a.base)

/-- The place of what is accessed. -/
def place (a : Access) : Script.Place :=
  ⟨a.base, a.path.map fun name =>
    if Script.isIdentifier name then .field name else .index (.str name)⟩

/-- The expression that reads what is accessed, or nothing where a container is missing. -/
def guarded (a : Access) : Expr :=
  if a.path.isEmpty then .var a.base
  else .call "_member" [.var a.base, .items (a.path.map Expr.str)]

/-- Whether one of two accesses leads to the other or into it. -/
def overlaps (a b : Access) : Bool :=
  a.base == b.base && (a.path.isPrefixOf b.path || b.path.isPrefixOf a.path)

end Access

/-- Where a slot gets its value from. -/
inductive Binding where
  /-- A literal. -/
  | literal (v : Value)
  /-- What a variable holds, or a field of it. -/
  | access (a : Access)

namespace Binding

/-- The expression that reads the value. -/
def expr : Binding → Expr
  | .literal v => v.spelling
  | .access a => a.expr

/-- The access, if it is one. -/
def access? : Binding → Option Access
  | .access a => some a
  | .literal _ => none

end Binding

namespace PipelineGraph

/-- Where a slot gets its value from: its literal, or else what its producer stands for. A parameter
slot stands for what feeds it, which has to come from an earlier step. -/
def binding (g : PipelineGraph) (key : SlotKey) : Except UnitFault Binding :=
  match g.fixed? key with
  | some v => .ok (.literal v)
  | none =>
    match g.producer? key with
    | none => .error (.missingProducer key)
    | some source =>
      match source.operation with
      | none => .ok (.access ⟨source.slot, []⟩)
      | some operation =>
        if source.isReturn then
          .ok (.access ⟨returnVariable source.step operation,
            (source.returnField?.map DataType.splitPath).getD []⟩)
        else if source.step < key.step then g.binding source
        else .error (.missingProducer source)
termination_by key.step

end PipelineGraph

end Pipewright
