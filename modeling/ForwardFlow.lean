import ForwardFlow.Analysis.Samples
import ForwardFlow.Main
import ForwardFlow.Proofs.Analysis.AssignedPaths
import ForwardFlow.Proofs.Analysis.ConstantsSound
import ForwardFlow.Proofs.Analysis.ConstantsOrder
import ForwardFlow.Proofs.Analysis.KnownSound
import ForwardFlow.Proofs.Knowledge.Declared
import ForwardFlow.Proofs.Program.Checked
import ForwardFlow.Proofs.Text.Blank
import ForwardFlow.Proofs.Text.Split
import ForwardFlow.Proofs.Solver.LeastSolution
import ForwardFlow.Proofs.Solver.Termination
import ForwardFlow.Solver.CheckedOrder
import ForwardFlow.Solver.Engine
import ForwardFlow.Proofs.Analysis.Height
import ForwardFlow.Proofs.Analysis.VisitBound
import ForwardFlow.Proofs.Analysis.ConstantsPolicy
import ForwardFlow.Proofs.Analysis.ConstantsAgree
import ForwardFlow.Proofs.Program.Line
import ForwardFlow.Proofs.Program.Token
import ForwardFlow.Proofs.Program.ExprText
import ForwardFlow.Proofs.Program.ElementText
import ForwardFlow.Proofs.Program.HeaderText
import ForwardFlow.Proofs.Program.SectionText
import ForwardFlow.Proofs.Program.RoundTrip
import ForwardFlow.Proofs.Graph.Postorder
import ForwardFlow.Proofs.Solver.Arrival
import ForwardFlow.Proofs.Solver.OnePass
import ForwardFlow.Proofs.Solver.Converged
import ForwardFlow.Proofs.Program.Edges
import ForwardFlow.Proofs.Program.PrintOrder
import ForwardFlow.Proofs.Program.BuiltText
import ForwardFlow.Proofs.Solver.Unreachable
import ForwardFlow.Proofs.Graph.Stack
import ForwardFlow.Proofs.Graph.Order
import ForwardFlow.Proofs.Engine.Worklist
import ForwardFlow.Proofs.Engine.Recorded
import ForwardFlow.Proofs.Engine.Sealing
import ForwardFlow.Proofs.Engine.Stage
import ForwardFlow.Proofs.Engine.Replay
import ForwardFlow.Proofs.Engine.Refinement
import ForwardFlow.Proofs.Program.WellFormed
import ForwardFlow.Proofs.Program.Normal
import ForwardFlow.Proofs.Program.Written
import ForwardFlow.Proofs.Program.Lossless
import ForwardFlow.Proofs.Engine.Run
import ForwardFlow.Proofs.Engine.InRange
import ForwardFlow.Proofs.Engine.Refused
import ForwardFlow.Proofs.Engine.Watched
import ForwardFlow.Proofs.Analysis.StatesWellFormed
import ForwardFlow.Proofs.Analysis.ConstantsPaths
import ForwardFlow.Proofs.Engine.Renumbering
import ForwardFlow.Proofs.Lattice.Laws
import ForwardFlow.Proofs.Knowledge.JoinOrder
import ForwardFlow.Proofs.Knowledge.Exact
import ForwardFlow.Proofs.Analysis.Footprint
import ForwardFlow.Proofs.Graph.DepthFirst
import ForwardFlow.Proofs.Lasting
import ForwardFlow.Proofs.Engine.History
import ForwardFlow.Proofs.Results
