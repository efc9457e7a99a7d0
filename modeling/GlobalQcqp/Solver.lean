import GlobalQcqp.ConvexProblem
import GlobalQcqp.Problem
import GlobalQcqp.Solver.Status
/-!
# Solvers

The search calls a convex solver on relaxations and a local solver on the problem itself.  Both are
arbitrary answering machines with a state of their own; nothing is assumed of their answers.
-/

namespace GlobalQcqp

/-- The answer of a convex solver. The point may have any length. -/
structure ConvexAnswer (α β : Type) where
  termination : Termination
  primal : PrimalStatus
  value : β
  point : Option (Array α)

namespace ConvexAnswer

def status {α β : Type} (r : ConvexAnswer α β) : LowerStatus :=
  classify r.termination r.primal

end ConvexAnswer

/-- A convex solver: a problem and perhaps a starting point to an answer. -/
abbrev ConvexSolver (α β : Type) (n : Nat) (σ : Type) :=
  ConvexProblem α n → Option (Vector α n) → σ → ConvexAnswer α β × σ

structure LocalProblem (α : Type) (n : Nat) where
  objective : Quadratic α n
  constraints : List (Quadratic α n)
  equalities : List (Quadratic α n)
  box : Box α n
  start : Vector α n

/-- The answer of a local solver. The point may be missing or have any shape. -/
structure LocalAnswer (α : Type) where
  point : Option (Tensor α)
  message : String

abbrev LocalSolver (α : Type) (n : Nat) (σ : Type) :=
  LocalProblem α n → σ → LocalAnswer α × σ

namespace Problem

variable {α : Type} [Scalar α]

def localProblem (p : Problem α) (box : Box α p.size) (start : Vector α p.size) :
    LocalProblem α p.size where
  objective := p.objective
  constraints := p.constraints
  equalities := p.equalities
  box := box
  start := start

end Problem

end GlobalQcqp
