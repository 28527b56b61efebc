import MockExplorer.Campaign.Batch
import MockExplorer.Campaign.Case
import MockExplorer.Campaign.Report
import MockExplorer.Campaign.Search
import MockExplorer.Console.Arguments
import MockExplorer.Console.Files
import MockExplorer.Console.Listing
import MockExplorer.Console.Notice
import MockExplorer.Console.Session
import MockExplorer.Console.Style
import MockExplorer.Coverage.BranchState
import MockExplorer.Coverage.Installation
import MockExplorer.Coverage.Oracle
import MockExplorer.Coverage.Report
import MockExplorer.Decimal.Dyadic
import MockExplorer.Decimal.Shortest
import MockExplorer.Error
import MockExplorer.Execution.Body
import MockExplorer.Execution.Run
import MockExplorer.Execution.Trace
import MockExplorer.Fixture
import MockExplorer.Form.Basic
import MockExplorer.Form.Report
import MockExplorer.Form.Settings
import MockExplorer.Form.Symbolic
import MockExplorer.Form.Target
import MockExplorer.Json.Basic
import MockExplorer.Json.Reading
import MockExplorer.Location
import MockExplorer.Main
import MockExplorer.Mock.Call
import MockExplorer.Mock.Provider
import MockExplorer.Mock.Resolver
import MockExplorer.Settings
import MockExplorer.Solver.Basic
import MockExplorer.Solver.Equality
import MockExplorer.SortedMap
import MockExplorer.Symbolic.Model
import MockExplorer.Symbolic.Path
import MockExplorer.Symbolic.Predicate
import MockExplorer.Symbolic.Variable
import MockExplorer.Target
import MockExplorer.Value
import MockExplorer.Yaml.Block
import MockExplorer.Yaml.Cursor
import MockExplorer.Yaml.Library
import MockExplorer.Yaml.Node
import MockExplorer.Yaml.Scalar
import MockExplorer.Yaml.Settings
import MockExplorer.Yaml.Token
import MockExplorer.Proofs.Solver.Demand
import MockExplorer.Proofs.SortedMap
import MockExplorer.Proofs.Solver.Equality
import MockExplorer.Proofs.Solver.Theorems
import MockExplorer.Proofs.Mock.Provider
import MockExplorer.Proofs.Mock.Call
import MockExplorer.Proofs.Execution.Invariant
import MockExplorer.Proofs.Execution.Question
import MockExplorer.Proofs.Execution.Lockstep
import MockExplorer.Proofs.Execution.Replay
import MockExplorer.Proofs.Execution.Noting
import MockExplorer.Proofs.Execution.Theorems
import MockExplorer.Proofs.Campaign.Batch
import MockExplorer.Proofs.Execution.Trace
import MockExplorer.Proofs.Campaign.Completeness
import MockExplorer.Proofs.Campaign.Theorems
import MockExplorer.Proofs.Campaign.Loop
import MockExplorer.Proofs.Campaign.Accounting
import MockExplorer.Proofs.Campaign.Failure
import MockExplorer.Proofs.Campaign.Scheduling
import MockExplorer.Proofs.Execution.Consistency
import MockExplorer.Proofs.Campaign.Consistency
import MockExplorer.Proofs.Mock.Ledger
import MockExplorer.Proofs.Execution.History
import MockExplorer.Proofs.Execution.Rerun
import MockExplorer.Proofs.Campaign.Reproduction
import MockExplorer.Proofs.Execution.Footprint
import MockExplorer.Proofs.Campaign.Alike
import MockExplorer.Proofs.Campaign.Isolation
import MockExplorer.Proofs.Solver.Choice
import MockExplorer.Proofs.Campaign.Repetition
import MockExplorer.Proofs.Campaign.Bound
import MockExplorer.Proofs.Coverage.Oracle
import MockExplorer.Proofs.Coverage.Interleaving
import MockExplorer.Proofs.Execution.Course
import MockExplorer.Proofs.Execution.TruePath
import MockExplorer.Proofs.Campaign.Success
import MockExplorer.Proofs.Campaign.Cancellation
import MockExplorer.Proofs.Campaign.Comparison
import MockExplorer.Proofs.Campaign.Fixture
import MockExplorer.Proofs.Form.RoundTrip
import MockExplorer.Proofs.Yaml.Block
import MockExplorer.Proofs.Yaml.Document
import MockExplorer.Proofs.Yaml.Library
import MockExplorer.Proofs.Yaml.Settings
import MockExplorer.Proofs.Campaign.Pool
import MockExplorer.Proofs.Solver.Invariance
import MockExplorer.Proofs.Coverage.Report
import MockExplorer.Proofs.Execution.Refusal
import MockExplorer.Proofs.Target
import MockExplorer.Proofs.Coverage.Nesting
import MockExplorer.Proofs.Execution.Contract
import MockExplorer.Proofs.Execution.Recorder
import MockExplorer.Proofs.Location
import MockExplorer.Proofs.Solver.Canonical
import MockExplorer.Proofs.Execution.Naming
import MockExplorer.Proofs.Yaml.Library
