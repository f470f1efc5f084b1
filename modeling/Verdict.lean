import Verdict.Text.Quoted
import Verdict.Text.Blank
import Verdict.Decimal.Digits
import Verdict.Decimal.Binary64
import Verdict.Decimal.Shortest
import Verdict.Comparator
import Verdict.Name
import Verdict.Scalar
import Verdict.Value
import Verdict.Shape.Basic
import Verdict.Shape.Conformance
import Verdict.Condition.Basic
import Verdict.Condition.Bounds
import Verdict.Condition.Evaluation
import Verdict.Condition.Printer
import Verdict.Condition.SyntaxError
import Verdict.Condition.Token
import Verdict.Condition.Bytewise
import Verdict.Condition.Reader
import Verdict.FieldTest
import Verdict.Check
import Verdict.DefinitionError
import Verdict.Limits
import Verdict.Flow.Admission
import Verdict.Table.Evaluation
import Verdict.Directory
import Verdict.Registry
import Verdict.Run.Context
import Verdict.Run.Control
import Verdict.Run.Event
import Verdict.Run.Engine
import Verdict.Form.Basic
import Verdict.Form.Condition
import Verdict.Form.Definition
import Verdict.Form.Run
import Verdict.Text.Path
import Verdict.Settings.Basic
import Verdict.Settings.Reading
import Verdict.Proofs.Name
import Verdict.Proofs.Directory
import Verdict.Proofs.Record
import Verdict.Proofs.Shape
import Verdict.Proofs.Conformance
import Verdict.Proofs.Assignability
import Verdict.Proofs.Coercion
import Verdict.Proofs.Violations
import Verdict.Proofs.FirstViolation
import Verdict.Proofs.Table.Typing
import Verdict.Proofs.Table.WellFormed
import Verdict.Proofs.Table.FirstMatch
import Verdict.Proofs.Table.Widening
import Verdict.Proofs.FieldTest
import Verdict.Proofs.Flow.Admission
import Verdict.Proofs.Registry.History
import Verdict.Proofs.Flow.WellFormed
import Verdict.Proofs.Registry.Growth
import Verdict.Proofs.Registry.Closure
import Verdict.Proofs.Registry.Order
import Verdict.Proofs.Registry.Limits
import Verdict.Proofs.Run.Deadlines
import Verdict.Proofs.Run.Moments
import Verdict.Proofs.Run.Projection
import Verdict.Proofs.Run.Trace
import Verdict.Proofs.Run.Calls
import Verdict.Proofs.Run.Sources
import Verdict.Proofs.Run.Typing
import Verdict.Proofs.Run.Coherence
import Verdict.Proofs.Run.Safety
import Verdict.Proofs.Run.Cancellation
import Verdict.Proofs.Run.Reasons
import Verdict.Proofs.Run.Log
import Verdict.Proofs.Run.Accounts
import Verdict.Proofs.Run.Audit
import Verdict.Proofs.Run.Gates
import Verdict.Proofs.Run.Reading
import Verdict.Proofs.Run.Locality
import Verdict.Proofs.Run.Nesting
import Verdict.Proofs.Run.Budgets
import Verdict.Proofs.Run.Narrowing
import Verdict.Proofs.Decimal.ReadBack
import Verdict.Proofs.Decimal.Order
import Verdict.Proofs.Decimal.Overflow
import Verdict.Proofs.Condition.Eager
import Verdict.Proofs.Condition.Occurrences
import Verdict.Proofs.Condition.Flat
import Verdict.Proofs.Condition.Completeness
import Verdict.Proofs.Condition.Soundness
import Verdict.Proofs.Condition.Scanning
import Verdict.Proofs.Condition.Spelling
import Verdict.Proofs.Condition.RoundTrip
import Verdict.Proofs.Condition.Numerals
import Verdict.Proofs.Condition.Places
import Verdict.Proofs.Condition.Bytes
import Verdict.Proofs.Condition.Complaints
import Verdict.Proofs.Condition.Names
import Verdict.Proofs.Form.Value
import Verdict.Proofs.Form.Condition
import Verdict.Proofs.Condition.WriteBack
import Verdict.Proofs.Form.Definition
import Verdict.Proofs.Text
import Verdict.Proofs.Settings
import Verdict.Outer.Toml.Node
import Verdict.Outer.Toml.Reader
import Verdict.Settings.Load
