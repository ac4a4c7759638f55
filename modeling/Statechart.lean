import Statechart.Double.Decimal
import Statechart.Text.CharClass
import Statechart.Json.Reader
import Statechart.Json.Writer
import Statechart.Definition.Decode
import Statechart.Chart.Reader
import Statechart.Machine.Operations
import Statechart.Service.Runner
import Statechart.Bench.Basic
import Statechart.Broadcast.Basic
import Statechart.Config.Basic
import Statechart.Host.Launch
import Statechart.Host.Request
import Statechart.Yaml.Node
import Statechart.Yaml.Writer
import Statechart.Config.Environment
import Statechart.Program.CommandLine
import Statechart.Program.Feed
import Statechart.Main
import Statechart.Proofs.Machine.Configuration
import Statechart.Proofs.Machine.Tokens
import Statechart.Proofs.Machine.Completions
import Statechart.Proofs.Machine.Positions
import Statechart.Proofs.Machine.Mirror
import Statechart.Proofs.Machine.Uprooted
import Statechart.Proofs.Host.Isolation
import Statechart.Proofs.Chart.Arena
import Statechart.Proofs.Chart.WellFormed
import Statechart.Proofs.Chart.Canonical
import Statechart.Proofs.Expr.Reading
import Statechart.Proofs.Expr.Grammar
import Statechart.Proofs.Machine.Resumed
import Statechart.Proofs.Machine.Reread
import Statechart.Proofs.Machine.Refusals
import Statechart.Proofs.Machine.Batch
import Statechart.Proofs.Host.Refinement
import Statechart.Proofs.Host.Vetted
import Statechart.Proofs.Broadcast.Delivery
import Statechart.Proofs.Host.Closing
import Statechart.Proofs.Host.Removal
import Statechart.Proofs.Machine.Execution
import Statechart.Proofs.Machine.Selection
import Statechart.Proofs.Machine.Limits
import Statechart.Proofs.Machine.Queue
import Statechart.Proofs.Machine.Departure
import Statechart.Proofs.Expr.Rendering
import Statechart.Proofs.Expr.Comparison
import Statechart.Proofs.Expr.Position
import Statechart.Proofs.Context.Update
import Statechart.Proofs.Machine.Actions
import Statechart.Proofs.Chart.Domain
import Statechart.Proofs.Service.Books
