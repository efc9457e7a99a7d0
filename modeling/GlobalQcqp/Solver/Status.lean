/-!
# Outcomes of a convex solve

A convex solver says how it ended and what it knows about its point.  `classify` turns the pair into
what the search may conclude: only a solved problem with a trusted point bounds a node, and only a
certified infeasible one discards it.
-/

namespace GlobalQcqp

inductive Termination where
  | optimal
  | locallySolved
  | infeasible
  | iterationLimit
  | timeLimit
  | numericalError
  | otherError
deriving DecidableEq, Repr

inductive PrimalStatus where
  | feasiblePoint
  | nearlyFeasiblePoint
  | infeasibilityCertificate
  | noSolution
  | unknown
deriving DecidableEq, Repr

/-- What is known about the relaxation of a node. -/
inductive LowerStatus where
  | unsolved
  | feasible
  | infeasible
  | failed
deriving DecidableEq, Repr

namespace LowerStatus

def text : LowerStatus → String
  | unsolved => "UNSOLVED"
  | feasible => "FEASIBLE"
  | infeasible => "INFEASIBLE"
  | failed => "SOLVER_FAILURE"

def ofText? (s : String) : Option LowerStatus :=
  [unsolved, feasible, infeasible, failed].find? (·.text == s)

end LowerStatus

namespace Termination

def all : List Termination :=
  [optimal, locallySolved, infeasible, iterationLimit, timeLimit, numericalError, otherError]

def text : Termination → String
  | optimal => "optimal"
  | locallySolved => "locally_solved"
  | infeasible => "infeasible"
  | iterationLimit => "iteration_limit"
  | timeLimit => "time_limit"
  | numericalError => "numerical_error"
  | otherError => "other_error"

def ofText? (s : String) : Option Termination :=
  all.find? (·.text == s)

def isSolved (t : Termination) : Bool :=
  t == optimal || t == locallySolved

end Termination

namespace PrimalStatus

def all : List PrimalStatus :=
  [feasiblePoint, nearlyFeasiblePoint, infeasibilityCertificate, noSolution, unknown]

def text : PrimalStatus → String
  | feasiblePoint => "feasible_point"
  | nearlyFeasiblePoint => "nearly_feasible_point"
  | infeasibilityCertificate => "infeasibility_certificate"
  | noSolution => "no_solution"
  | unknown => "unknown"

def ofText? (s : String) : Option PrimalStatus :=
  all.find? (·.text == s)

def isTrusted (p : PrimalStatus) : Bool :=
  p == feasiblePoint || p == nearlyFeasiblePoint

def refutes (p : PrimalStatus) : Bool :=
  p == infeasibilityCertificate || p == noSolution

end PrimalStatus

def classify (termination : Termination) (primal : PrimalStatus) : LowerStatus :=
  if termination.isSolved && primal.isTrusted then .feasible
  else if termination == .infeasible && primal.refutes then .infeasible
  else .failed

end GlobalQcqp
