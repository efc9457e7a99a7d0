import GlobalQcqp.Node.Branching
import GlobalQcqp.Node.Pool
/-!
# Options of a search

Limits, tolerances and policies.  A gap that is not given is the tolerance of the problem; one that
is given may be infinite.
-/

namespace GlobalQcqp

inductive PropagationMode where
  | none
  | feasibility
  | optimality
  | both
deriving DecidableEq, Repr

structure Options (α β : Type) where
  absGap : Option β
  relGap : Option β
  maxNodes : Nat
  maxIterations : Option Nat
  maxTime : β
  minWidth : α
  feasibilityTol : α
  selection : NodeSelection
  hybridInterval : Int
  branching : BranchingRule
  branchPoint : BranchPoint
  propagation : PropagationMode
  probeDepth : Int
  /-- Upper bounding runs on every iteration whose number this divides. -/
  upperInterval : Nat
  lowerRetries : Nat
  /-- A record is due on every iteration whose number this divides; zero asks for none. -/
  reportInterval : Nat

end GlobalQcqp
