import GlobalQcqp.Interval
import GlobalQcqp.Linear
/-!
# Boxes

A box is a product of intervals, kept as the vector of its lower ends and the vector of its upper
ends.
-/

namespace GlobalQcqp

structure Box (α : Type) (n : Nat) where
  lower : Vector α n
  upper : Vector α n

namespace Box

variable {α : Type} {n : Nat}

def side (b : Box α n) (i : Fin n) : Interval α :=
  ⟨b.lower[i], b.upper[i]⟩

def sides (b : Box α n) : Vector (Interval α) n :=
  Vector.ofFn b.side

def ofSides (sides : Vector (Interval α) n) : Box α n :=
  ⟨sides.map (·.lo), sides.map (·.hi)⟩

variable [Scalar α]

def setSide (b : Box α n) (i : Fin n) (s : Interval α) : Box α n :=
  ⟨b.lower.set i s.lo i.isLt, b.upper.set i s.hi i.isLt⟩

/-- Some lower end lies above its upper end. -/
def isCrossed (b : Box α n) : Bool :=
  (List.finRange n).any fun i ↦ (b.side i).isEmpty

def midpoint (b : Box α n) : Vector α n :=
  Vector.ofFn fun i ↦ 0.5 * (b.lower[i] + b.upper[i])

def widths (b : Box α n) : Vector α n :=
  Vector.ofFn fun i ↦ b.upper[i] - b.lower[i]

def clamp (b : Box α n) (x : Vector α n) : Vector α n :=
  Vector.ofFn fun i ↦ Scalar.clamp b.lower[i] b.upper[i] x[i]

def inter (b c : Box α n) : Box α n :=
  ⟨Vector.ofFn fun i ↦ Scalar.greater b.lower[i] c.lower[i],
    Vector.ofFn fun i ↦ Scalar.lesser b.upper[i] c.upper[i]⟩

/-- Some coordinate of `x` is more than `tol` outside the box. -/
def isMissedBy (b : Box α n) (tol : α) (x : Vector α n) : Bool :=
  (List.finRange n).any fun i ↦
    decide (x[i] < b.lower[i] - tol) || decide (b.upper[i] + tol < x[i])

end Box

end GlobalQcqp
