import Conformance.Bindings
import Conformance.Class
import Conformance.Class.Native
import Conformance.Command
import Conformance.Command.Arguments
import Conformance.Decimal
import Conformance.Diagnostic
import Conformance.Diagnostic.Rendering
import Conformance.Document
import Conformance.Document.Reader
import Conformance.Double
import Conformance.Double.Reader
import Conformance.Double.Shortest
import Conformance.Fault
import Conformance.Formal
import Conformance.Generator
import Conformance.Generator.Use
import Conformance.Invocation
import Conformance.Judgement
import Conformance.Judgement.Context
import Conformance.Judgement.Scene
import Conformance.Layout.Grid
import Conformance.Layout.Markup
import Conformance.Layout.Width
import Conformance.Layout.Wrap
import Conformance.Ledger
import Conformance.Ledger.Coverage
import Conformance.Ledger.Loose
import Conformance.Ledger.Report
import Conformance.Log
import Conformance.Main
import Conformance.Overload
import Conformance.Overload.Pairing
import Conformance.Program
import Conformance.Program.Arity
import Conformance.Program.Attribute
import Conformance.Program.Comparison
import Conformance.Program.Conversion
import Conformance.Program.Inquiry
import Conformance.Program.Item
import Conformance.Program.Iteration
import Conformance.Program.Lineage
import Conformance.Program.Making
import Conformance.Program.Method
import Conformance.Program.Native
import Conformance.Program.Run
import Conformance.Program.World
import Conformance.Proofs.Alternatives
import Conformance.Proofs.BlockArgument
import Conformance.Proofs.BuiltIn
import Conformance.Proofs.Caches
import Conformance.Proofs.Checking
import Conformance.Proofs.ClassNames
import Conformance.Proofs.Congruence
import Conformance.Proofs.Constituents
import Conformance.Proofs.Consumption
import Conformance.Proofs.Cutting
import Conformance.Proofs.Descent
import Conformance.Proofs.Duality
import Conformance.Proofs.Exercise
import Conformance.Proofs.FailurePaths
import Conformance.Proofs.Finite
import Conformance.Proofs.FirstFailure
import Conformance.Proofs.FirstMatch
import Conformance.Proofs.Grammar
import Conformance.Proofs.Grouping
import Conformance.Proofs.Growth
import Conformance.Proofs.Guarded
import Conformance.Proofs.Inspection
import Conformance.Proofs.Law
import Conformance.Proofs.Layout
import Conformance.Proofs.Ledger.Conservation
import Conformance.Proofs.Ledger.Dense
import Conformance.Proofs.Ledger.Entries
import Conformance.Proofs.Ledger.History
import Conformance.Proofs.Ledger.Loading
import Conformance.Proofs.Ledger.Merging
import Conformance.Proofs.Ledger.Persistence
import Conformance.Proofs.Ledger.Titles
import Conformance.Proofs.Ledger.Uses
import Conformance.Proofs.Lexing
import Conformance.Proofs.Lookups
import Conformance.Proofs.Mentions
import Conformance.Proofs.NameCheck
import Conformance.Proofs.NativeClasses
import Conformance.Proofs.Pairing
import Conformance.Proofs.Parallel
import Conformance.Proofs.Progress
import Conformance.Proofs.ParameterOrder
import Conformance.Proofs.Parsing
import Conformance.Proofs.Precedence
import Conformance.Proofs.Reachability
import Conformance.Proofs.Reading
import Conformance.Proofs.Recheck
import Conformance.Proofs.References
import Conformance.Proofs.ResolutionSoundness
import Conformance.Proofs.Respacing
import Conformance.Proofs.RoundTrip
import Conformance.Proofs.SampledJudging
import Conformance.Proofs.Samples
import Conformance.Proofs.Satisfaction
import Conformance.Proofs.SignatureFaults
import Conformance.Proofs.Simulation
import Conformance.Proofs.SlotDiscipline
import Conformance.Proofs.Slots
import Conformance.Proofs.Soundness
import Conformance.Proofs.Spelling
import Conformance.Proofs.Strides
import Conformance.Proofs.Succession
import Conformance.Proofs.Termination
import Conformance.Proofs.TypeTree
import Conformance.Proofs.Unbound
import Conformance.Proofs.WellFormed
import Conformance.Registry
import Conformance.Registry.Names
import Conformance.Sampling
import Conformance.Session
import Conformance.Settings
import Conformance.Table
import Conformance.TestRun
import Conformance.Text.Alphanumeric
import Conformance.Text.Digit
import Conformance.Text.Identifier
import Conformance.Text.Integer
import Conformance.Text.Printable
import Conformance.Text.Quoted
import Conformance.Text.Runs
import Conformance.Text.Space
import Conformance.Text.Upper
import Conformance.Token
import Conformance.Token.Lexer
import Conformance.TypeExpr
import Conformance.TypeExpr.ClassNames
import Conformance.TypeExpr.Equality
import Conformance.TypeExpr.Parser
import Conformance.TypeExpr.Printer
import Conformance.Value
import Conformance.Value.Arithmetic
import Conformance.Value.Equality
import Conformance.Value.Normal
import Conformance.Value.Order
import Conformance.Value.Written
import Conformance.Verdict
