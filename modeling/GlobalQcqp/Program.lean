import GlobalQcqp.Quadratic
import GlobalQcqp.Solver
/-!
# Nonlinear programs

A program asks for the least value of a function over the points at which its conditions hold and
every variable is in its range.  Functions come with their gradients.

The two local solvers state a problem in different forms.  A `Program` asks that functions be
nonnegative or zero; a `RangedProgram` asks that the values of its functions lie between limits.
-/

namespace GlobalQcqp

variable {α : Type} [Scalar α] {m n : Nat}

structure Smooth (α : Type) (m : Nat) where
  value : Vector α m → α
  gradient : Vector α m → Vector α m

namespace Smooth

def neg (f : Smooth α m) : Smooth α m where
  value x := -f.value x
  gradient x := (f.gradient x).map (- ·)

def scale (sign : α) (f : Smooth α m) : Smooth α m where
  value x := sign * f.value x
  gradient x := (f.gradient x).map (sign * ·)

end Smooth

def Quadratic.smooth (q : Quadratic α n) : Smooth α n :=
  ⟨q.eval, q.gradient⟩

inductive Relation where
  | nonnegative
  | zero
deriving DecidableEq, Repr

structure Condition (α : Type) (m : Nat) where
  relation : Relation
  function : Smooth α m

/-- A program with the point to start from. A variable without a range is free. -/
structure Program (α : Type) (m : Nat) where
  objective : Smooth α m
  conditions : List (Condition α m)
  ranges : Vector (Option (Interval α)) m
  start : Vector α m

/-- A program whose functions each have a lower and an upper limit. The limits are lists of their
own, in the order of the functions. -/
structure RangedProgram (α β : Type) (n : Nat) where
  objective : Smooth α n
  functions : List (Smooth α n)
  lower : List β
  upper : List β
  box : Box α n
  start : Vector α n

/-- A problem for a local solver whose functions may be of any kind. -/
structure SmoothProblem (α : Type) (n : Nat) where
  objective : Smooth α n
  constraints : List (Smooth α n)
  equalities : List (Smooth α n)
  box : Box α n
  start : Vector α n

namespace SmoothProblem

/-- Constraints ask that the negative of their function be nonnegative. -/
def program (c : SmoothProblem α n) : Program α n where
  objective := c.objective
  conditions := (c.constraints.map fun g ↦ ⟨.nonnegative, g.neg⟩) ++ c.equalities.map (⟨.zero, ·⟩)
  ranges := c.box.sides.map some
  start := c.box.clamp c.start

/-- Equalities come first. The values of constraints have no lower limit. -/
def ranged {β : Type} [Scalar β] [Extended α β] (c : SmoothProblem α n) : RangedProgram α β n where
  objective := c.objective
  functions := c.equalities ++ c.constraints
  lower := .replicate c.equalities.length 0 ++ .replicate c.constraints.length negInf
  upper := .replicate (c.equalities ++ c.constraints).length 0
  box := c.box
  start := c.box.clamp c.start

end SmoothProblem

namespace LocalProblem

def smooth (c : LocalProblem α n) : SmoothProblem α n where
  objective := c.objective.smooth
  constraints := c.constraints.map (·.smooth)
  equalities := c.equalities.map (·.smooth)
  box := c.box
  start := c.start

def program (c : LocalProblem α n) : Program α n :=
  c.smooth.program

def ranged {β : Type} [Scalar β] [Extended α β] (c : LocalProblem α n) : RangedProgram α β n :=
  c.smooth.ranged

end LocalProblem

namespace RangedProgram

variable {β : Type}

def values (p : RangedProgram α β n) (x : Vector α n) : List α :=
  p.functions.map fun f ↦ f.value x

/-- The derivatives of the functions, one function after the other. -/
def jacobian (p : RangedProgram α β n) (x : Vector α n) : List α :=
  p.functions.flatMap fun f ↦ (f.gradient x).toList

end RangedProgram

end GlobalQcqp
