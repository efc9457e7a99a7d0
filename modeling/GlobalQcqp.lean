import GlobalQcqp.Box
import GlobalQcqp.Candidate
import GlobalQcqp.ConvexProblem
import GlobalQcqp.Decimal.Binary
import GlobalQcqp.Decimal.Reader
import GlobalQcqp.Decimal.Rounded
import GlobalQcqp.Decimal.Shortest
import GlobalQcqp.Defaults
import GlobalQcqp.Fault
import GlobalQcqp.Fault.Text
import GlobalQcqp.Frozen
import GlobalQcqp.Heap
import GlobalQcqp.Interval
import GlobalQcqp.Linear
import GlobalQcqp.Minimizer
import GlobalQcqp.Minimizer.ActiveSet
import GlobalQcqp.Minimizer.Sequential
import GlobalQcqp.Minimizer.Triangular
import GlobalQcqp.Node
import GlobalQcqp.Node.Branching
import GlobalQcqp.Node.Draft
import GlobalQcqp.Node.Draft.Branching
import GlobalQcqp.Node.Draft.Pool
import GlobalQcqp.Node.Draft.Reader
import GlobalQcqp.Node.HeapPool
import GlobalQcqp.Node.LowerBound
import GlobalQcqp.Node.Pool
import GlobalQcqp.Notice
import GlobalQcqp.Notice.Text
import GlobalQcqp.Options
import GlobalQcqp.Options.Names
import GlobalQcqp.Options.Sheet
import GlobalQcqp.Problem
import GlobalQcqp.Problem.Build
import GlobalQcqp.Problem.Reader
import GlobalQcqp.Problem.Resize
import GlobalQcqp.Program
import GlobalQcqp.Progress
import GlobalQcqp.Progress.Draft
import GlobalQcqp.Quadratic
import GlobalQcqp.Quadratic.Build
import GlobalQcqp.Quadratic.Reader
import GlobalQcqp.Record
import GlobalQcqp.Record.Draft
import GlobalQcqp.Record.Table
import GlobalQcqp.Registry
import GlobalQcqp.Relaxation
import GlobalQcqp.Relaxation.Builder
import GlobalQcqp.Relaxation.Ends
import GlobalQcqp.Run
import GlobalQcqp.Scalar
import GlobalQcqp.Search
import GlobalQcqp.Search.Run
import GlobalQcqp.Search.Solve
import GlobalQcqp.Search.Step
import GlobalQcqp.Search.Tree
import GlobalQcqp.Setting
import GlobalQcqp.Setting.Entries
import GlobalQcqp.Setting.Order
import GlobalQcqp.Setting.Reader
import GlobalQcqp.Setting.Word
import GlobalQcqp.Solver
import GlobalQcqp.Solver.Corners
import GlobalQcqp.Solver.Descent
import GlobalQcqp.Solver.Draft
import GlobalQcqp.Solver.Staged
import GlobalQcqp.Solver.Status
import GlobalQcqp.Solver.Tangent
import GlobalQcqp.Spectrum
import GlobalQcqp.Spectrum.Discs
import GlobalQcqp.Spectrum.Rotation
import GlobalQcqp.Tensor
import GlobalQcqp.Tensor.Mismatch
import GlobalQcqp.Tensor.Place
import GlobalQcqp.Tensor.Reader
import GlobalQcqp.Text.Numeral
import GlobalQcqp.Text.Printable
import GlobalQcqp.Text.Quoted
import GlobalQcqp.Tightening
import GlobalQcqp.Tightening.Feasibility
import GlobalQcqp.Tightening.Optimality
import GlobalQcqp.Proofs.Box
import GlobalQcqp.Proofs.Candidate
import GlobalQcqp.Proofs.Epigraph
import GlobalQcqp.Proofs.Epigraph.Lockstep
import GlobalQcqp.Proofs.Epigraph.Node
import GlobalQcqp.Proofs.Epigraph.Parts
import GlobalQcqp.Proofs.Epigraph.Range
import GlobalQcqp.Proofs.Epigraph.Search
import GlobalQcqp.Proofs.Epigraph.Soundness
import GlobalQcqp.Proofs.Exact
import GlobalQcqp.Proofs.Except
import GlobalQcqp.Proofs.Frozen
import GlobalQcqp.Proofs.Frozen.Coordinates
import GlobalQcqp.Proofs.Heap
import GlobalQcqp.Proofs.Interval
import GlobalQcqp.Proofs.Interval.Hull
import GlobalQcqp.Proofs.Interval.Inclusion
import GlobalQcqp.Proofs.LawfulScalar
import GlobalQcqp.Proofs.Linear
import GlobalQcqp.Proofs.MachineOrder
import GlobalQcqp.Proofs.Node.Branching
import GlobalQcqp.Proofs.Node.Draft
import GlobalQcqp.Proofs.Node.DraftPool
import GlobalQcqp.Proofs.Node.HeapPool
import GlobalQcqp.Proofs.Node.LowerBound
import GlobalQcqp.Proofs.Node.LowerBound.Calls
import GlobalQcqp.Proofs.Node.LowerBound.Retries
import GlobalQcqp.Proofs.Node.LowerBound.WriteBack
import GlobalQcqp.Proofs.Node.Pool
import GlobalQcqp.Proofs.Node.Pool.Kept
import GlobalQcqp.Proofs.Node.Rank
import GlobalQcqp.Proofs.Node.Splitting
import GlobalQcqp.Proofs.OrderedScalar
import GlobalQcqp.Proofs.Problem
import GlobalQcqp.Proofs.Program
import GlobalQcqp.Proofs.Program.Ranged
import GlobalQcqp.Proofs.Progress
import GlobalQcqp.Proofs.Quadratic
import GlobalQcqp.Proofs.Quadratic.Lifting
import GlobalQcqp.Proofs.Ranges
import GlobalQcqp.Proofs.Ranges.Inclusion
import GlobalQcqp.Proofs.Ranges.Slope
import GlobalQcqp.Proofs.Ranges.Split
import GlobalQcqp.Proofs.Relaxation
import GlobalQcqp.Proofs.Relaxation.Builder
import GlobalQcqp.Proofs.Relaxation.Convexity
import GlobalQcqp.Proofs.Relaxation.Ends
import GlobalQcqp.Proofs.Relaxation.Gap
import GlobalQcqp.Proofs.Search.Bounds
import GlobalQcqp.Proofs.Search.Builder
import GlobalQcqp.Proofs.Search.Conservation
import GlobalQcqp.Proofs.Search.Cover
import GlobalQcqp.Proofs.Search.Crossing
import GlobalQcqp.Proofs.Search.Discards
import GlobalQcqp.Proofs.Search.Execution
import GlobalQcqp.Proofs.Search.Exhaustion
import GlobalQcqp.Proofs.Search.Frames
import GlobalQcqp.Proofs.Search.Frontier
import GlobalQcqp.Proofs.Search.Heap
import GlobalQcqp.Proofs.Search.Incumbent
import GlobalQcqp.Proofs.Search.Lifetime
import GlobalQcqp.Proofs.Search.Nodes
import GlobalQcqp.Proofs.Search.Outstanding
import GlobalQcqp.Proofs.Search.Parts
import GlobalQcqp.Proofs.Search.Records
import GlobalQcqp.Proofs.Search.Refusals
import GlobalQcqp.Proofs.Search.Results
import GlobalQcqp.Proofs.Search.Run
import GlobalQcqp.Proofs.Search.SolverMap
import GlobalQcqp.Proofs.Search.Stages
import GlobalQcqp.Proofs.Search.Step
import GlobalQcqp.Proofs.Search.Termination
import GlobalQcqp.Proofs.Search.Threshold
import GlobalQcqp.Proofs.Search.Totality
import GlobalQcqp.Proofs.SolveLe
import GlobalQcqp.Proofs.Solver
import GlobalQcqp.Proofs.Solver.Staged
import GlobalQcqp.Proofs.Solver.Verdicts
import GlobalQcqp.Proofs.Spectrum
import GlobalQcqp.Proofs.Spectrum.Discs
import GlobalQcqp.Proofs.Tightening
import GlobalQcqp.Proofs.Tightening.Feasibility
import GlobalQcqp.Proofs.Tightening.Optimality
import GlobalQcqp.Proofs.Tightening.Refusals
import GlobalQcqp.Proofs.Tightening.Runs
import GlobalQcqp.Proofs.Tightening.Strength
import GlobalQcqp.Proofs.Tightening.Support
