import GlobalQcqp.Quadratic.Build
/-!
# Convex problems

The form in which a relaxation is handed to a convex solver: minimize the objective over the points
of a box at which no constraint is positive.
-/

namespace GlobalQcqp

structure ConvexProblem (α : Type) (n : Nat) where
  objective : Quadratic α n
  constraints : List (Quadratic α n)
  box : Box α n

namespace ConvexProblem

variable {α : Type} [Scalar α] {n : Nat}

def midpoint (c : ConvexProblem α n) : Vector α n :=
  c.box.midpoint

/-- The largest value of a constraint at `x`, zero if none is positive. -/
def violation (c : ConvexProblem α n) (x : Vector α n) : α :=
  c.constraints.foldl (fun w g ↦ Scalar.max w (g.eval x)) 0

end ConvexProblem

end GlobalQcqp
