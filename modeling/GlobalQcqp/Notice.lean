import GlobalQcqp.Run
import GlobalQcqp.Solver.Status
/-!
# Notices

What the search and its solvers report while they run.  Functions return their notices in order;
their wording is in `Notice.Text`.
-/

namespace GlobalQcqp

inductive Source where
  | relaxation
  | localSearch
deriving DecidableEq, Repr

inductive WriteBackError where
  | pointLength (given expected : Nat)
  | nodeLength (node problem : Nat)
deriving DecidableEq, Repr

inductive SolveStage where
  | main
  | phaseOne
  | retry
  | localSearch
deriving DecidableEq, Repr

inductive Notice (β : Type) where
  | started (size stored constraints equalities : Nat)
  | refutedByRanges (node : Int)
  | rangesDiscarded (node : Int)
  | refutedByProbe (node : Int)
  | lowerRetried (node : Int) (termination : Termination)
  | pointRefused (node : Int) (cause : WriteBackError)
  | unbounded (node : Int)
  | localFailed (node : Int) (message : String)
  | noFeasiblePoint (node : Int)
  | improved (node : Int) (value : β) (source : Source) (pruned : Nat)
  | solveRaised (stage : SolveStage) (message : String)
  | finished (state : RunState) (iterations nodes : Nat) (elapsed : β)

inductive Severity where
  | debug
  | info
deriving DecidableEq, Repr

def Notice.severity {β : Type} : Notice β → Severity
  | .finished .. => .info
  | _ => .debug

end GlobalQcqp
