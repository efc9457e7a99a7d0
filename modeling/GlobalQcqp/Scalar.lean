/-!
# Scalars

The search is written once over two kinds of number.  A `Scalar` carries the data of a problem:
matrix entries, coordinates, box ends.  A bound on an objective value may also be infinite;
`Extended` says how the finite numbers sit inside such a type.

Both are run at machine numbers, where they are the same type.  The exact reading takes real numbers
and extended real numbers.
-/

namespace GlobalQcqp

/-- Numbers with the operations and comparisons the search uses. -/
class Scalar (α : Type) extends
    Zero α, One α, Add α, Sub α, Mul α, Div α, Neg α, LT α, LE α, BEq α, OfScientific α where
  sqrt : α → α
  isFinite : α → Bool
  decideLT : ∀ a b : α, Decidable (a < b)
  decideLE : ∀ a b : α, Decidable (a ≤ b)

namespace Scalar

variable {α : Type} [Scalar α]

instance : DecidableLT α := decideLT

instance : DecidableLE α := decideLE

/-- The first of two numbers unless the second is strictly smaller. -/
def min (a b : α) : α :=
  if b < a then b else a

/-- The first of two numbers unless the second is strictly larger. -/
def max (a b : α) : α :=
  if a < b then b else a

def abs (a : α) : α :=
  if a < 0 then -a else a

/-- An undefined number differs from itself. -/
def isUndefined (a : α) : Bool :=
  !(a == a)

/-- The smaller of two numbers, undefined as soon as one of them is. -/
def lesser (a b : α) : α :=
  if isUndefined a then a else if isUndefined b then b else min a b

/-- The larger of two numbers, undefined as soon as one of them is. -/
def greater (a b : α) : α :=
  if isUndefined a then a else if isUndefined b then b else max a b

/-- The point of `[lo, hi]` nearest to `x`; where the ends cross, `hi` wins. -/
def clamp (lo hi x : α) : α :=
  lesser (greater x lo) hi

end Scalar

/-- The finite numbers `α` inside a type `β` that also has the two infinities. -/
class Extended (α : outParam Type) (β : Type) [Scalar α] [Scalar β] where
  posInf : β
  negInf : β
  ofNumber : α → β
  /-- The number a finite bound stands for. -/
  toNumber : β → α

export Extended (posInf negInf ofNumber toNumber)

instance : Scalar Float where
  zero := 0.0
  one := 1.0
  sqrt := Float.sqrt
  isFinite := Float.isFinite
  decideLT := inferInstance
  decideLE := inferInstance

instance : Extended Float Float where
  posInf := 1.0 / 0.0
  negInf := -1.0 / 0.0
  ofNumber := id
  toNumber := id

end GlobalQcqp
