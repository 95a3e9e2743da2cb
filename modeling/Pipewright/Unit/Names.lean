import Pipewright.Graph.Key
import Pipewright.Script.Identifier

/-! # Names in generated programs
The names that a generated program uses for itself, and which names overall inputs and outputs may
have. Results of steps are named for the step and the operation, behind a fixed word. -/

namespace Pipewright

/-- Names of variables and parameters of every generated program. -/
def ownNames : List String :=
  ["progress_callback", "delete_intermediate_nodes", "_failed", "_failure", "_retained", "inputs",
    "outputs", "output_value", "parameter_node"]

/-- The words that start the names of the variables of steps. -/
def stepLeads : List String := ["step_", "function_"]

/-- Whether a name is spelled like the variable of a step: a lead, digits, an underscore. -/
def isStepName (name : String) : Bool :=
  stepLeads.any fun lead =>
    match Text.dropLead? lead.toList name.toList with
    | none => false
    | some rest =>
      !(rest.takeWhile Char.isDigit).isEmpty && (rest.dropWhile Char.isDigit).head? == some '_'

/-- Whether generated programs use a name, or may use it, for themselves. -/
def isGeneratedName (name : String) : Bool :=
  name.toList.head? == some '_' || ownNames.contains name || isStepName name

/-- What is wrong with the name of an overall input or output. -/
inductive NameFault where
  /-- It is no identifier. -/
  | notIdentifier (name : String)
  /-- Generated programs use it for themselves. -/
  | reserved (name : String)
deriving DecidableEq, Repr

/-- The text of a fault. -/
def NameFault.message : NameFault → String
  | .notIdentifier name => "'" ++ name ++ "' is not a valid identifier"
  | .reserved name => "'" ++ name ++ "' clashes with a name the generated code uses for itself"

/-- What is wrong with the name of an overall input or output, if anything is. -/
def nameFault? (name : String) : Option NameFault :=
  if !Script.isIdentifier name then some (.notIdentifier name)
  else if isGeneratedName name then some (.reserved name)
  else none

/-- The variable that holds the result of a step. -/
def returnVariable (step : Nat) (operation : String) : String :=
  "step_" ++ toString step ++ "_" ++ Script.sanitize operation ++ "_" ++ returnSlot

/-- The variable that holds the operation of a step. -/
def functionVariable (step : Nat) (operation : String) : String :=
  "function_" ++ toString step ++ "_" ++ Script.sanitize operation

end Pipewright
