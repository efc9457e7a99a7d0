import GlobalQcqp.ConvexProblem
import GlobalQcqp.Problem
import GlobalQcqp.Spectrum
/-!
# Convex relaxations

On the box `[l, u]` the product `(l - x)^T (u - x)` is nowhere positive and has Hessian `2 I`.
Adding `s` times it to a quadratic therefore gives an underestimator on the box, which is convex as
soon as the shift `s` makes up for the least eigenvalue.  The result is again a quadratic.

A relaxation replaces the objective and every constraint by such underestimators.  An equality gives
two constraints, one for the function and one for its negative.  `Problem.relaxation?` makes them in
this order and stops at the first whose numbers leave the finite range.
-/

namespace GlobalQcqp

variable {α : Type} [Scalar α] {n : Nat}

namespace Quadratic

def shiftedMatrix (q : Quadratic α n) (shift : α) : SquareMatrix α n :=
  Vector.ofFn fun i ↦ Vector.ofFn fun j ↦
    q.hessian[i][j] + 2.0 * shift * (if i = j then 1 else 0)

def loweredCoefficients (q : Quadratic α n) (box : Box α n) (shift : α) : Coefficients α n where
  matrix := q.shiftedMatrix shift
  linear := Vector.ofFn fun i ↦ q.linear[i] - shift * (box.lower[i] + box.upper[i])
  constant := q.constant + shift * dot box.lower box.upper

/-- The underestimator on a box that adds `shift` times the product of the distances to its ends. -/
def lowered (q : Quadratic α n) (box : Box α n) (shift : α) : Quadratic α n :=
  if shift == 0 then q else (q.loweredCoefficients box shift).quadratic

def lowered? (q : Quadratic α n) (box : Box α n) (shift : α) : Except (Fault α) (Quadratic α n) :=
  if shift == 0 then .ok q else (q.loweredCoefficients box shift).quadratic?

def raised (q : Quadratic α n) (box : Box α n) (shift : α) : Quadratic α n :=
  (q.neg.lowered box shift).neg

def spectralBound (routine : EigenRoutine α) (q : Quadratic α n) : SpectralBound α :=
  leastEigenvalue routine q.hessian

/-- The shift that makes up for the least eigenvalue. -/
def convexShift (routine : EigenRoutine α) (q : Quadratic α n) : α :=
  (q.spectralBound routine).shift

def convexUnder (routine : EigenRoutine α) (q : Quadratic α n) (box : Box α n) : Quadratic α n :=
  q.lowered box (q.convexShift routine)

def concaveOver (routine : EigenRoutine α) (q : Quadratic α n) (box : Box α n) : Quadratic α n :=
  q.raised box (q.neg.convexShift routine)

end Quadratic

namespace Problem

/-- The inequalities `g x ≤ 0` that say the same as the constraints and equalities. -/
def inequalities (p : Problem α) : List (Quadratic α p.size) :=
  p.constraints ++ p.equalities.flatMap fun h ↦ [h, h.neg]

def relaxation (p : Problem α) (routine : EigenRoutine α) (box : Box α p.size) :
    ConvexProblem α p.size where
  objective := p.objective.convexUnder routine box
  constraints := p.inequalities.map (·.convexUnder routine box)
  box := box

end Problem

/-- One step in making a relaxation, and whether the discs stood in for the eigenvalue routine in
it. -/
structure Underestimate (α : Type) (n : Nat) where
  fromDiscs : Bool
  result : Except (Fault α) (Quadratic α n)

/-- How a quadratic is lowered by a shift. -/
abbrev Lowering (α : Type) (n : Nat) :=
  Quadratic α n → α → Except (Fault α) (Quadratic α n)

namespace Lowering

def apply (lower : Lowering α n) (routine : EigenRoutine α) (q : Quadratic α n) :
    Underestimate α n :=
  let bound := q.spectralBound routine
  ⟨bound.fromDiscs, lower q bound.shift⟩

/-- Lowers an equality and its negative, which is made first. -/
def applyBoth (lower : Lowering α n) (routine : EigenRoutine α) (h : Quadratic α n) :
    List (Underestimate α n) :=
  [lower.apply routine h,
    match h.neg? with
    | .error fault => ⟨false, .error fault⟩
    | .ok g => lower.apply routine g]

end Lowering

namespace Problem

def constraintSteps (p : Problem α) (routine : EigenRoutine α) (lower : Lowering α p.size) :
    List (Underestimate α p.size) :=
  p.constraints.map (lower.apply routine) ++ p.equalities.flatMap (lower.applyBoth routine)

def lowerAll (p : Problem α) (routine : EigenRoutine α) (lower : Lowering α p.size) :
    Except (Fault α) (Quadratic α p.size × List (Quadratic α p.size)) := do
  let objective ← (lower.apply routine p.objective).result
  let constraints ← (p.constraintSteps routine lower).mapM (·.result)
  return (objective, constraints)

/-- The relaxation, unless its numbers leave the finite range. -/
def relaxation? (p : Problem α) (routine : EigenRoutine α) (box : Box α p.size) :
    Except (Fault α) (ConvexProblem α p.size) := do
  let (objective, constraints) ← p.lowerAll routine (·.lowered? box ·)
  return ⟨objective, constraints, box⟩

end Problem

end GlobalQcqp
