import GlobalQcqp.Program
/-!
# Frozen coordinates

A coordinate whose side is no wider than a tolerance is frozen at the middle of the side.  The
remaining free coordinates make a smaller box, whose points stand for the points of the whole box
with the frozen coordinates filled in.
-/

namespace GlobalQcqp

/-- A box some of whose coordinates are free; the others are frozen. -/
structure FrozenBox (α : Type) (n : Nat) where
  box : Box α n
  free : Array (Fin n)

namespace FrozenBox

variable {α : Type} [Scalar α] {n : Nat}

def ofBox (tol : α) (box : Box α n) : FrozenBox α n where
  box := box
  free := ((List.finRange n).filter fun i ↦ tol < box.upper[i] - box.lower[i]).toArray

abbrev count (b : FrozenBox α n) : Nat :=
  b.free.size

def base (b : FrozenBox α n) : Vector α n :=
  b.box.midpoint

def freeAt? (b : FrozenBox α n) (i : Fin n) : Option (Fin b.count) :=
  (List.finRange b.count).find? fun k ↦ b.free[k] == i

def gather {ε : Type} (b : FrozenBox α n) (x : Vector ε n) : Vector ε b.count :=
  Vector.ofFn fun k ↦ x[b.free[k]]

def full (b : FrozenBox α n) (z : Vector α b.count) : Vector α n :=
  Vector.ofFn fun i ↦ (b.freeAt? i).elim b.base[i] fun k ↦ z[k]

/-- The free coordinates of the nearest point of the box. -/
def reduce (b : FrozenBox α n) (x : Vector α n) : Vector α b.count :=
  b.gather (b.box.clamp x)

def sides (b : FrozenBox α n) : Vector (Interval α) b.count :=
  b.gather b.box.sides

def pull (b : FrozenBox α n) (q : Quadratic α n) : Smooth α b.count where
  value z := q.eval (b.full z)
  gradient z := b.gather (q.gradient (b.full z))

/-- A quadratic, with a sign, as a function of the free coordinates. -/
def function (b : FrozenBox α n) (q : Quadratic α n) (sign : α) : Smooth α b.count :=
  (b.pull q).scale sign

end FrozenBox

end GlobalQcqp
