import AgentPaths.Cli.Directory
import AgentPaths.Graph.EdgeMap
import AgentPaths.Main
import AgentPaths.Proofs.Graph.Walk
import AgentPaths.Proofs.Window.Distance
import AgentPaths.Proofs.Window.Journey
import AgentPaths.Proofs.Window.Recorded
import AgentPaths.Proofs.Encoding.Windows
import AgentPaths.Proofs.Encoding.Allotment
import AgentPaths.Proofs.Encoding.Rules
import AgentPaths.Proofs.Encoding.Conduct
import AgentPaths.Proofs.Encoding.Correctness
import AgentPaths.Proofs.Schedule.Checking
import AgentPaths.Proofs.Encoding.Models
import AgentPaths.Proofs.Encoding.Pruning
import AgentPaths.Proofs.Encoding.Distinct
import AgentPaths.Proofs.Encoding.WellFormed
import AgentPaths.Proofs.Sat.Contract
import AgentPaths.Proofs.Search.Correctness
import AgentPaths.Proofs.Search.Looks
import AgentPaths.Proofs.Search.Report
import AgentPaths.Proofs.Text.Reading
import AgentPaths.Proofs.Graph.Table
import AgentPaths.Proofs.Problem.Grammar
import AgentPaths.Proofs.Problem.RoundTrip
import AgentPaths.Proofs.Schedule.Acceptance
import AgentPaths.Proofs.Schedule.Waiting
import AgentPaths.Proofs.Schedule.Astray
import AgentPaths.Proofs.Schedule.Broken
import AgentPaths.Proofs.Search.Undisturbed
import AgentPaths.Proofs.Search.Least
import AgentPaths.Proofs.Search.Rejection
import AgentPaths.Proofs.Schedule.Reading
import AgentPaths.Proofs.Schedule.RoundTrip
import AgentPaths.Proofs.Cli.Verify
import AgentPaths.Proofs.Sat.Adapter
import AgentPaths.Proofs.Sat.Polling
import AgentPaths.Proofs.Cli.Directory
import AgentPaths.Proofs.Cli.Solve
import AgentPaths.Proofs.Problem.Clash
import AgentPaths.Proofs.Problem.Faults
import AgentPaths.Proofs.Problem.Validation
import AgentPaths.Proofs.Graph.EdgeMap
import AgentPaths.Proofs.Graph.EdgeSet
import AgentPaths.Proofs.Formula.History
import AgentPaths.Proofs.Formula.AtMostOne
import AgentPaths.Proofs.Encoding.Size
import AgentPaths.Proofs.Grid.Features
import AgentPaths.Proofs.Grid.Edges
import AgentPaths.Proofs.Grid.Outcome
import AgentPaths.Proofs.Grid.Random
import AgentPaths.Proofs.Grid.Recovery
import AgentPaths.Proofs.Graph.RoundTrip
import AgentPaths.Proofs.Graph.Guarded
import AgentPaths.Proofs.Problem.Guarded
import AgentPaths.Proofs.Grid.Validity
import AgentPaths.Proofs.Grid.Drawing
