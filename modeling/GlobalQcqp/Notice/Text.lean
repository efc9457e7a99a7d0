import GlobalQcqp.Decimal.Shortest
import GlobalQcqp.Notice
/-!
# Wording of notices
-/

namespace GlobalQcqp

def Source.text : Source → String
  | .relaxation => "relaxation"
  | .localSearch => "local"

def WriteBackError.message : WriteBackError → String
  | .pointLength given expected =>
    s!"Relaxation returned {given} values for {expected} optimized variables"
  | .nodeLength node problem => s!"Node stores {node} variables, problem stores {problem}"

def SolveStage.text : SolveStage → String
  | .main => "Convex solve"
  | .phaseOne => "Phase-one solve"
  | .retry => "Convex retry"
  | .localSearch => "Local solve"

def noFeasiblePointMessage (node : Int) : String :=
  s!"No feasible point found on node {node}"

def problemSummary (size stored constraints equalities : Nat) : String :=
  s!"Problem(n_vars={size}, n_stored={stored}, constraints={constraints}, equalities={equalities})"

def quadraticSummary (size : Nat) (constant : Float) : String :=
  s!"QuadraticFunction(n={size}, constant=" ++ Decimal.shortest constant ++ ")"

def Notice.message : Notice Float → String
  | .started size stored constraints equalities =>
    "Branch-and-bound started on " ++ problemSummary size stored constraints equalities
  | .refutedByRanges node => s!"Node {node}: FBBT proved infeasibility"
  | .rangesDiscarded node => s!"Node {node}: FBBT result discarded"
  | .refutedByProbe node => s!"Node {node}: OBBT proved infeasibility"
  | .lowerRetried node termination =>
    s!"Node {node}: lower solve failed ({termination.text}), retrying from midpoint"
  | .pointRefused node cause => s!"Node {node}: {cause.message}"
  | .unbounded node => s!"Node {node}: relaxation could not be bounded"
  | .localFailed node message => s!"Node {node}: local solve failed: {message}"
  | .noFeasiblePoint node => noFeasiblePointMessage node
  | .improved node value source pruned =>
    let v := Decimal.scientific 6 value
    s!"Node {node}: new incumbent {v} ({source.text}), pruned {pruned} open nodes"
  | .solveRaised stage message => s!"{stage.text} raised: {message}"
  | .finished state iterations nodes elapsed =>
    let t := Decimal.fixed 2 elapsed
    s!"Branch-and-bound finished: {state.text} after {iterations} iterations, " ++
      s!"{nodes} nodes, {t}s"

end GlobalQcqp
