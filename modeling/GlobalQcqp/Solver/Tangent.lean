import GlobalQcqp.Solver
/-!
# Bounds without a minimizer

Two convex solvers that answer in closed form.  One bounds every function by its tangent plane at
the midpoint of the box, the other by its range over the box.  Neither bound exceeds a value of a
convex function on the box, so a problem is refuted as soon as the bound of a constraint is positive
by more than a tolerance.
-/

namespace GlobalQcqp

variable {α β : Type} [Scalar α] [Scalar β] [Extended α β] {n : Nat}

namespace Tangent

/-- A constraint is refuted by a bound above this. -/
def tolerance : α := 1e-6

def flat : α := 1e-9

def slopes (q : Quadratic α n) (box : Box α n) : Vector α n :=
  (q.gradient box.midpoint).map fun g ↦ if Scalar.abs g < flat then 0 else g

/-- The corner of a box at which the tangent plane is least. -/
def corner (q : Quadratic α n) (box : Box α n) : Vector α n :=
  let g := slopes q box
  Vector.ofFn fun i ↦
    if 0 < g[i] then box.lower[i] else if g[i] < 0 then box.upper[i] else box.midpoint[i]

def bound (q : Quadratic α n) (box : Box α n) : α :=
  let least := corner q box
  let mid := box.midpoint
  q.eval mid + dot (slopes q box) (Vector.ofFn fun i : Fin n ↦ least[i] - mid[i])

/-- Refutes a problem one of whose constraints has a positive bound, or else answers with the bound
of the objective. -/
def answer (bound : Quadratic α n → α) (c : ConvexProblem α n) (point : Vector α n) :
    ConvexAnswer α β :=
  if c.constraints.any fun g ↦ tolerance < bound g then
    ⟨.infeasible, .infeasibilityCertificate, posInf, none⟩
  else ⟨.optimal, .feasiblePoint, ofNumber (bound c.objective), some point.toArray⟩

def solver {σ : Type} : ConvexSolver α β n σ := fun c _ s ↦
  (answer (bound · c.box) c (corner c.objective c.box), s)

def rangeSolver {σ : Type} : ConvexSolver α β n σ := fun c start s ↦
  (answer (fun q ↦ (q.interval c.box.sides).lo) c (start.getD c.midpoint), s)

end Tangent

end GlobalQcqp
