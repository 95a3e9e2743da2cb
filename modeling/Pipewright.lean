import Pipewright.Annotation
import Pipewright.CommandLine
import Pipewright.Creation
import Pipewright.DataType.Acceptance
import Pipewright.DataType.Basic
import Pipewright.DataType.Display
import Pipewright.DataType.Document
import Pipewright.Datum.Basic
import Pipewright.Datum.Text
import Pipewright.Decimal.Layout
import Pipewright.Decimal.Reading
import Pipewright.Decimal.Shortest
import Pipewright.FileTree
import Pipewright.Graph.Basic
import Pipewright.Graph.Describe
import Pipewright.Graph.Fault
import Pipewright.Graph.Key
import Pipewright.Graph.Steps
import Pipewright.Graph.Validation
import Pipewright.Host.Basic
import Pipewright.Host.Environment
import Pipewright.Host.Evaluation
import Pipewright.Host.Failure
import Pipewright.Host.Machine
import Pipewright.Host.Operators
import Pipewright.Host.Unit
import Pipewright.Json.Basic
import Pipewright.Json.Reader
import Pipewright.Keyed
import Pipewright.Main
import Pipewright.NodeClass
import Pipewright.Operation.Basic
import Pipewright.Operation.Recipe
import Pipewright.Operation.Signature
import Pipewright.Path
import Pipewright.Progress
import Pipewright.Proofs.Creation
import Pipewright.Proofs.DataType.Acceptance
import Pipewright.Proofs.DataType.Classes
import Pipewright.Proofs.DataType.Document
import Pipewright.Proofs.DataType.Equality
import Pipewright.Proofs.DataType.Layers
import Pipewright.Proofs.DataType.Numeric
import Pipewright.Proofs.DataType.Ordering
import Pipewright.Proofs.DataType.Paths
import Pipewright.Proofs.DataType.RoundTrip
import Pipewright.Proofs.Datum.Entries
import Pipewright.Proofs.Datum.Normal
import Pipewright.Proofs.Decimal.Bits
import Pipewright.Proofs.Decimal.Nearest
import Pipewright.Proofs.Decimal.Rounding
import Pipewright.Proofs.Decimal.Shortest
import Pipewright.Proofs.Decimal.Shown
import Pipewright.Proofs.Decimal.Written
import Pipewright.Proofs.Graph.Alone
import Pipewright.Proofs.Graph.Built
import Pipewright.Proofs.Graph.Culprits
import Pipewright.Proofs.Graph.Dataflow
import Pipewright.Proofs.Graph.Editing
import Pipewright.Proofs.Graph.Filling
import Pipewright.Proofs.Graph.Layers
import Pipewright.Proofs.Graph.Order
import Pipewright.Proofs.Graph.Positions
import Pipewright.Proofs.Graph.Revalidation
import Pipewright.Proofs.Graph.Steps
import Pipewright.Proofs.Graph.Typed
import Pipewright.Proofs.Graph.Validation
import Pipewright.Proofs.Graph.Violations
import Pipewright.Proofs.Graph.WellFormed
import Pipewright.Proofs.Graph.Wired
import Pipewright.Proofs.Host.Caching
import Pipewright.Proofs.Host.Classes
import Pipewright.Proofs.Host.Layout
import Pipewright.Proofs.Host.Outcome
import Pipewright.Proofs.Host.Statements
import Pipewright.Proofs.Json.Numbers
import Pipewright.Proofs.Json.Written
import Pipewright.Proofs.Keyed
import Pipewright.Proofs.Operation.Signature
import Pipewright.Proofs.Progress.Deliveries
import Pipewright.Proofs.Progress.Exact
import Pipewright.Proofs.Progress.Heard
import Pipewright.Proofs.Progress.Nested
import Pipewright.Proofs.Registry
import Pipewright.Proofs.Registry.Classes
import Pipewright.Proofs.Registry.Growth
import Pipewright.Proofs.Registry.History
import Pipewright.Proofs.Registry.Layers
import Pipewright.Proofs.Scene.Calls
import Pipewright.Proofs.Scene.Copied
import Pipewright.Proofs.Scene.Identity
import Pipewright.Proofs.Scene.Remains
import Pipewright.Proofs.Scene.Removal
import Pipewright.Proofs.Scene.Sound
import Pipewright.Proofs.Script.Blocks
import Pipewright.Proofs.Script.Data
import Pipewright.Proofs.Script.Expressions
import Pipewright.Proofs.Script.Layout
import Pipewright.Proofs.Script.Legible
import Pipewright.Proofs.Script.Lexing
import Pipewright.Proofs.Script.Numbers
import Pipewright.Proofs.Script.Parsing
import Pipewright.Proofs.Script.Programs
import Pipewright.Proofs.Script.Quoted
import Pipewright.Proofs.Script.Spaces
import Pipewright.Proofs.Script.Spelled
import Pipewright.Proofs.Script.Statements
import Pipewright.Proofs.Script.Variables
import Pipewright.Proofs.Text.Bytes
import Pipewright.Proofs.Text.Delimited
import Pipewright.Proofs.Text.Lines
import Pipewright.Proofs.Text.Quoted
import Pipewright.Proofs.Text.Trimmed
import Pipewright.Proofs.Unit.Adoption
import Pipewright.Proofs.Unit.Bindings
import Pipewright.Proofs.Unit.Body
import Pipewright.Proofs.Unit.Called
import Pipewright.Proofs.Unit.Cleanup
import Pipewright.Proofs.Unit.Copies
import Pipewright.Proofs.Unit.Copying
import Pipewright.Proofs.Unit.Declared
import Pipewright.Proofs.Unit.Failing
import Pipewright.Proofs.Unit.Finish
import Pipewright.Proofs.Unit.Growth
import Pipewright.Proofs.Unit.Idle
import Pipewright.Proofs.Unit.Imports
import Pipewright.Proofs.Unit.Layers
import Pipewright.Proofs.Unit.Legible
import Pipewright.Proofs.Unit.Literals
import Pipewright.Proofs.Unit.Loaded
import Pipewright.Proofs.Unit.Members
import Pipewright.Proofs.Unit.Merging
import Pipewright.Proofs.Unit.Metadata
import Pipewright.Proofs.Unit.Names
import Pipewright.Proofs.Unit.Nodes
import Pipewright.Proofs.Unit.OnRun
import Pipewright.Proofs.Unit.Overlap
import Pipewright.Proofs.Unit.Parts
import Pipewright.Proofs.Unit.Pieces
import Pipewright.Proofs.Unit.Places
import Pipewright.Proofs.Unit.Protection
import Pipewright.Proofs.Unit.Redrawn
import Pipewright.Proofs.Unit.Release
import Pipewright.Proofs.Unit.Removal
import Pipewright.Proofs.Unit.Reports
import Pipewright.Proofs.Unit.Retention
import Pipewright.Proofs.Unit.Running
import Pipewright.Proofs.Unit.Scope
import Pipewright.Proofs.Unit.Setup
import Pipewright.Proofs.Unit.Source
import Pipewright.Proofs.Unit.Spaces
import Pipewright.Proofs.Unit.Steps
import Pipewright.Proofs.Unit.Supply
import Pipewright.Proofs.Unit.Surviving
import Pipewright.Proofs.Unit.Types
import Pipewright.Proofs.Unit.Typing
import Pipewright.Proofs.Unit.Visits
import Pipewright.Proofs.Unit.Written
import Pipewright.Proofs.Value.Display
import Pipewright.Provider
import Pipewright.Registry
import Pipewright.Scene.Basic
import Pipewright.Script.Identifier
import Pipewright.Script.Lexer
import Pipewright.Script.Parser
import Pipewright.Script.Printer
import Pipewright.Script.Program
import Pipewright.Script.Quoted
import Pipewright.Settings
import Pipewright.Settings.Document
import Pipewright.Text.Basic
import Pipewright.Text.Quoted
import Pipewright.Text.Unprintable
import Pipewright.Toml.Basic
import Pipewright.Toml.Number
import Pipewright.Toml.Reader
import Pipewright.Toml.Text
import Pipewright.Toml.Writer
import Pipewright.Unit.Binding
import Pipewright.Unit.Fault
import Pipewright.Unit.Metadata
import Pipewright.Unit.Names
import Pipewright.Unit.ParameterNode
import Pipewright.Unit.Piece
import Pipewright.Unit.Run
import Pipewright.Unit.Source
import Pipewright.Unit.Spelling
import Pipewright.Unit.Widget
import Pipewright.Value
