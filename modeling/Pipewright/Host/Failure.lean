import Pipewright.Datum.Text
import Pipewright.Graph.Fault
import Pipewright.Path
import Pipewright.Registry
import Pipewright.Unit.Fault

/-! # Failures
What can go wrong between a pipeline graph and a running unit, from all parts of the library, with
the contexts in which it happened. -/

namespace Pipewright

/-- Why a program cannot be used, or does not do what is expected of it. -/
inductive ScriptError where
  /-- The language refuses the program, before it runs or while it runs. -/
  | refused
  /-- The program raised a value. -/
  | thrown (d : Datum)
  /-- Code for a type has another value. -/
  | notType (code kind : String)
  /-- Code for plain data has another value. -/
  | notPlain (code kind : String)
  /-- A function that should return a map does not. -/
  | notMap (function kind : String)
  /-- A map lacks a text. -/
  | missingText (key : String)
  /-- A map lacks a list. -/
  | missingList (key : String)
  /-- A list of texts holds something else. -/
  | notText (key kind : String)
  /-- The name of a unit cannot be told from its path. -/
  | nameless (path : String)
  /-- Something else, in words. -/
  | other (message : String)

/-- The text of an error, as far as it is not the language's own. -/
def ScriptError.message? : ScriptError → Option String
  | .refused => none
  | .thrown d => if d.raisedText == "" then none else some d.raisedText
  | .notType code kind => some ("`" ++ code ++ "` evaluated to " ++ kind ++ ", not a type")
  | .notPlain code kind => some ("`" ++ code ++ "` evaluated to " ++ kind ++ ", not plain data")
  | .notMap function kind => some (function ++ "() returned " ++ kind ++ ", expected a map")
  | .missingText key => some ("missing string field '" ++ key ++ "'")
  | .missingList key => some ("missing list field '" ++ key ++ "'")
  | .notText key kind => some ("'" ++ key ++ "' holds a " ++ kind ++ ", expected strings")
  | .nameless path => some ("Cannot derive a pipeline name from " ++ Path.quoted path)
  | .other message => some message

/-- What has gone wrong. -/
inductive Cause where
  /-- An operation cannot be registered. -/
  | registration (e : RegistrationError)
  /-- A graph is not valid. -/
  | validation (e : GraphFault)
  /-- A unit cannot be generated or put in its place. -/
  | generation (e : UnitFault)
  /-- Something cannot be done to the scene. -/
  | scene (e : SceneError)
  /-- A program does not do what is expected of it. -/
  | script (e : ScriptError)
  /-- Settings cannot be read or written. -/
  | config (message : String)
  /-- A file cannot be read or written. -/
  | storage

namespace Cause

/-- The name of the part of the library that a cause comes from. -/
def family : Cause → String
  | .registration _ => "Registration"
  | .validation _ => "Validation"
  | .generation _ => "Generation"
  | .scene _ => "Scene"
  | .script _ => "Script"
  | .config _ => "Config"
  | .storage => "Io"

/-- The word for a cause within its part of the library, if that knows several. -/
def kind? : Cause → Option String
  | .registration e => some e.kind
  | .validation e => some e.kind
  | .generation e => some e.kind
  | .scene e => some e.kind
  | _ => none

/-- The text of a cause without the words that introduce it. -/
def message? : Cause → Option String
  | .registration e => some e.message
  | .validation e => some e.message
  | .generation e => e.message?
  | .scene e => some e.message
  | .script e => e.message?
  | .config message => some message
  | .storage => none

/-- The words that introduce the text of a cause. -/
def introduction : Cause → String
  | .registration _ => "Registration error: "
  | .validation _ => "Validation error: "
  | .generation _ => "Generation error: "
  | .scene _ => "Scene error: "
  | .script _ => "Script error: "
  | .config _ => "Configuration error: "
  | .storage => "IO error: "

/-- The text of a cause. -/
def display (c : Cause) : String := c.introduction ++ c.message?.getD ""

end Cause

/-- What has gone wrong, and where. -/
structure Failure where
  /-- What was being done, the outermost first. -/
  contexts : List String
  /-- What has gone wrong. -/
  cause : Cause

namespace Failure

/-- A failure without a context. -/
def of (c : Cause) : Failure := ⟨[], c⟩

/-- A failure of a program. -/
def script (e : ScriptError) : Failure := of (.script e)

/-- Say what was being done when something failed. -/
def within (f : Failure) (context : String) : Failure := ⟨context :: f.contexts, f.cause⟩

/-- The text of a failure. -/
def display (f : Failure) : String := ": ".intercalate (f.contexts ++ [f.cause.display])

end Failure

end Pipewright
