import GlobalQcqp.Relaxation
/-!
# Builders of relaxations

A builder keeps every shift it has computed under the name of the function, so that the eigenvalue
routine sees a function once, and an equality once more for its negative.  It makes the relaxations
of one search, or of several, and what it keeps is never forgotten, also not when a relaxation is
refused.
-/

namespace GlobalQcqp

/-- What a shift is kept under: the name of a function, and whether it is the shift of its
negative. -/
structure ShiftKey where
  name : Nat
  negated : Bool
deriving DecidableEq, Repr

structure Builder (α : Type) where
  shifts : List (ShiftKey × α)
  /-- How often the discs have stood in for the eigenvalue routine. -/
  discCount : Nat

/-- The names of the functions of a problem, the constraints and equalities by position. -/
structure FunctionNames where
  objective : Nat
  constraint : Nat → Nat
  equality : Nat → Nat

/-- A step that may be refused and leaves a builder behind either way. -/
abbrev Building (α ε : Type) :=
  ExceptT (Fault α) (StateM (Builder α)) ε

variable {α : Type} [Scalar α] {n : Nat}

namespace Quadratic

def signedHessian (q : Quadratic α n) (negated : Bool) : SquareMatrix α n :=
  q.hessian.map (·.map ((if negated then -1.0 else 1.0) * ·))

/-- The bound on the spectrum of a function or of its negative. -/
def signedBound (routine : EigenRoutine α) (q : Quadratic α n) (negated : Bool) : SpectralBound α :=
  leastEigenvalue routine (q.signedHessian negated)

end Quadratic

namespace Builder

def empty : Builder α :=
  ⟨[], 0⟩

def shift? (b : Builder α) (key : ShiftKey) : Option α :=
  b.shifts.lookup key

def keep (b : Builder α) (key : ShiftKey) (bound : SpectralBound α) : Builder α where
  shifts := (key, bound.shift) :: b.shifts
  discCount := b.discCount + bound.fromDiscs.toNat

end Builder

namespace Building

/-- The shift of a function or of its negative, which is computed only if it is not known. -/
def shift (routine : EigenRoutine α) (key : ShiftKey) (q : Quadratic α n) : Building α α := do
  match (← get).shift? key with
  | some shift => return shift
  | none =>
    let bound := q.signedBound routine key.negated
    modify (·.keep key bound)
    return bound.shift

variable (routine : EigenRoutine α) (lower : Lowering α n)

def under (name : Nat) (q : Quadratic α n) : Building α (Quadratic α n) := do
  let shift ← shift routine ⟨name, false⟩ q
  lower q shift

/-- An equality and its negative, which is made before its shift is looked up. -/
def underBoth (name : Nat) (h : Quadratic α n) : Building α (Quadratic α n × Quadratic α n) := do
  let above ← under routine lower name h
  let negative ← h.neg?
  let shift ← shift routine ⟨name, true⟩ h
  return (above, ← lower negative shift)

end Building

namespace Problem

/-- The underestimators of the objective and of all the constraints. -/
def underAll (p : Problem α) (names : FunctionNames) (routine : EigenRoutine α)
    (lower : Lowering α p.size) :
    Building α (Quadratic α p.size × List (Quadratic α p.size)) := do
  let objective ← Building.under routine lower names.objective p.objective
  let constraints ← p.constraints.zipIdx.mapM fun (g, j) ↦
    Building.under routine lower (names.constraint j) g
  let pairs ← p.equalities.zipIdx.mapM fun (h, j) ↦
    Building.underBoth routine lower (names.equality j) h
  return (objective, constraints ++ pairs.flatMap fun pair ↦ [pair.1, pair.2])

/-- The relaxation on a stored box. -/
def buildRelaxation (p : Problem α) (names : FunctionNames) (routine : EigenRoutine α)
    (box : Box α p.stored) : Building α (ConvexProblem α p.size) := do
  let ends := p.restrictBox box
  let (objective, constraints) ← p.underAll names routine (·.lowered? ends ·)
  return ⟨objective, constraints, ends⟩

/-- Names that keep all the functions of a problem apart. -/
def ownNames (p : Problem α) : FunctionNames where
  objective := 0
  constraint j := j + 1
  equality j := p.constraints.length + j + 1

end Problem

end GlobalQcqp
