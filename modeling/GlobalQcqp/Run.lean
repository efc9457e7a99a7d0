/-!
# Run states

A search starts initialized, runs, and ends in one of the terminal states.
-/

namespace GlobalQcqp

inductive RunState where
  | initialized
  | running
  | converged
  | timeLimit
  | nodeLimit
  | iterationLimit
  | interrupted
  | infeasible
  /-- Nothing is open, but nodes too narrow to split hold the gap open. -/
  | resolutionLimit
deriving DecidableEq, Repr

namespace RunState

def isTerminal : RunState → Bool
  | initialized | running => false
  | _ => true

def text : RunState → String
  | initialized => "initialized"
  | running => "running"
  | converged => "converged"
  | timeLimit => "time_limit"
  | nodeLimit => "node_limit"
  | iterationLimit => "iteration_limit"
  | interrupted => "interrupted"
  | infeasible => "infeasible"
  | resolutionLimit => "resolution_limit"

end RunState

end GlobalQcqp
