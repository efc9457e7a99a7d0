import GlobalQcqp.Scalar
/-!
# Intervals

Closed intervals and the operations on them that enclose a quadratic.  An interval may be crossed,
with its lower end above its upper end; it then holds no point.  Operations that can tell by
themselves that no point is left return `none`.

`solveLe` is the exact solution of one quadratic inequality on an interval, up to its hull.
-/

namespace GlobalQcqp

structure Interval (α : Type) where
  lo : α
  hi : α
deriving Repr

namespace Interval

variable {α : Type} [Scalar α]

def singleton (a : α) : Interval α :=
  ⟨a, a⟩

def isEmpty (a : Interval α) : Bool :=
  decide (a.hi < a.lo)

def add (a b : Interval α) : Interval α :=
  ⟨a.lo + b.lo, a.hi + b.hi⟩

def scale (a : Interval α) (k : α) : Interval α :=
  if 0 ≤ k then ⟨k * a.lo, k * a.hi⟩ else ⟨k * a.hi, k * a.lo⟩

def mul (a b : Interval α) : Interval α :=
  let p := a.lo * b.lo
  let q := a.lo * b.hi
  let r := a.hi * b.lo
  let s := a.hi * b.hi
  ⟨Scalar.min (Scalar.min (Scalar.min p q) r) s, Scalar.max (Scalar.max (Scalar.max p q) r) s⟩

def square (a : Interval α) : Interval α :=
  if 0 ≤ a.lo then ⟨a.lo * a.lo, a.hi * a.hi⟩
  else if a.hi ≤ 0 then ⟨a.hi * a.hi, a.lo * a.lo⟩
  else ⟨0, Scalar.max (a.lo * a.lo) (a.hi * a.hi)⟩

def inter (a b : Interval α) : Interval α :=
  ⟨Scalar.max a.lo b.lo, Scalar.min a.hi b.hi⟩

def below (a : Interval α) (top : α) : Interval α :=
  ⟨a.lo, Scalar.min a.hi top⟩

def above (a : Interval α) (bottom : α) : Interval α :=
  ⟨Scalar.max a.lo bottom, a.hi⟩

def sum (start : Interval α) (pieces : List (Interval α)) : Interval α :=
  pieces.foldl add start

/-- The least interval over the pieces that hold a point. -/
def hull (pieces : List (Interval α)) : Option (Interval α) :=
  match pieces.filter (!·.isEmpty) with
  | [] => none
  | p :: ps =>
    some (ps.foldl (fun acc q ↦ ⟨Scalar.min acc.lo q.lo, Scalar.max acc.hi q.hi⟩) p)

/-- The two roots of `a * x^2 + b * x + r` in increasing order, given the root of the
discriminant. -/
def roots (a b sq : α) : Interval α :=
  let p := (-b - sq) / (2.0 * a)
  let q := (-b + sq) / (2.0 * a)
  if q < p then ⟨q, p⟩ else ⟨p, q⟩

/-- The hull of the points `x` of the domain with `a * x^2 + b * x + r ≤ 0`. -/
def solveLe (a b r : α) (domain : Interval α) : Option (Interval α) :=
  if domain.isEmpty then none
  else if a == 0 then
    if b == 0 then
      if r ≤ 0 then some domain else none
    else
      let root := -r / b
      some (if 0 < b then domain.below root else domain.above root)
  else
    let disc := b * b - 4.0 * a * r
    if 0 < a then
      if disc < 0 then none
      else some (domain.inter (roots a b (Scalar.sqrt disc)))
    else if disc < 0 then some domain
    else
      let between := roots a b (Scalar.sqrt disc)
      hull [domain.below between.lo, domain.above between.hi]

end Interval

end GlobalQcqp
