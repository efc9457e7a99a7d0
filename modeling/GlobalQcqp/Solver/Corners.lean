import GlobalQcqp.Solver
/-!
# Local search over corners

Compares the starting point with every corner of the box and answers with the best one that violates
no constraint.  An indefinite quadratic without constraints often has its least value at a corner.
-/

namespace GlobalQcqp.Corners

variable {α σ : Type} [Scalar α] {n : Nat}

def tolerance : α := 1e-6

/-- A later candidate has to be better by more than this. -/
def improvement : α := 1e-9

/-- The corners of a box, lower ends first and the last side changing fastest. -/
def all : (n : Nat) → Box α n → List (Vector α n)
  | 0, _ => [#v[]]
  | n + 1, box =>
    let side := box.side (Fin.last n)
    (all n ⟨box.lower.pop, box.upper.pop⟩).flatMap fun x ↦ [x.push side.lo, x.push side.hi]

/-- No constraint is violated by more than the tolerance. -/
def admits (c : LocalProblem α n) (x : Vector α n) : Bool :=
  !(c.constraints.any fun g ↦ tolerance < g.eval x) &&
    !(c.equalities.any fun h ↦ tolerance < Scalar.abs (h.eval x))

/-- The better of the best candidate so far and the next one, with its value. -/
def better (c : LocalProblem α n) (best : Option (Vector α n × α)) (x : Vector α n) :
    Option (Vector α n × α) :=
  let value := c.objective.eval x
  match best with
  | none => some (x, value)
  | some (_, least) => if value < least - improvement then some (x, value) else best

def solver : LocalSolver α n σ := fun c s ↦
  let found := ((c.start :: all n c.box).filter (admits c)).foldl (better c) none
  (⟨found.map fun x ↦ .ofVector x.1, ""⟩, s)

end GlobalQcqp.Corners
