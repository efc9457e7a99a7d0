import GlobalQcqp.Box
/-!
# Quadratic functions

A quadratic is `1/2 x^T Q x + c^T x + k` with a symmetric `Q`.  Only the symmetric part of a matrix
contributes to a quadratic form, so `Quadratic.ofMatrix` takes any square matrix and keeps that
part.

Every operation that makes a new quadratic states its `Coefficients` first and then keeps the
symmetric part of their matrix.
-/

namespace GlobalQcqp

structure Quadratic (α : Type) (n : Nat) where
  hessian : SquareMatrix α n
  linear : Vector α n
  constant : α
  symmetric : ∀ i j : Fin n, hessian[i][j] = hessian[j][i]

namespace Quadratic

variable {α : Type} [Scalar α] {n : Nat}

/-- Half the sum of the entries at `(i, j)` and `(j, i)`. -/
def meanEntry (M : SquareMatrix α n) (i j : Fin n) : α :=
  if i ≤ j then 0.5 * (M[i][j] + M[j][i]) else 0.5 * (M[j][i] + M[i][j])

theorem meanEntry_comm (M : SquareMatrix α n) (i j : Fin n) :
    meanEntry M i j = meanEntry M j i := by
  unfold meanEntry
  by_cases hij : i ≤ j <;> by_cases hji : j ≤ i
  · rw [Fin.le_antisymm hij hji]
  · simp [hij, hji]
  · simp [hij, hji]
  · exact absurd (Fin.le_of_lt (Fin.not_le.mp hij)) hji

def ofMatrix (M : SquareMatrix α n) (c : Vector α n) (k : α) : Quadratic α n where
  hessian := Vector.ofFn fun i ↦ Vector.ofFn fun j ↦ meanEntry M i j
  linear := c
  constant := k
  symmetric i j := by simpa using meanEntry_comm M i j

end Quadratic

structure Coefficients (α : Type) (n : Nat) where
  matrix : SquareMatrix α n
  linear : Vector α n
  constant : α

namespace Coefficients

variable {α : Type} [Scalar α] {n : Nat}

def quadratic (d : Coefficients α n) : Quadratic α n :=
  .ofMatrix d.matrix d.linear d.constant

def hasFiniteEntries (d : Coefficients α n) : Bool :=
  d.matrix.all (·.all Scalar.isFinite) && d.linear.all Scalar.isFinite

end Coefficients

namespace Quadratic

variable {α : Type} [Scalar α] {n : Nat}

def eval (q : Quadratic α n) (x : Vector α n) : α :=
  0.5 * dot x (mulVec q.hessian x) + dot q.linear x + q.constant

def gradient (q : Quadratic α n) (x : Vector α n) : Vector α n :=
  Vector.ofFn fun i ↦ dot q.hessian[i] x + q.linear[i]

/-! ## Operations by coefficients -/

def negCoefficients (q : Quadratic α n) : Coefficients α n where
  matrix := q.hessian.map (·.map (- ·))
  linear := q.linear.map (- ·)
  constant := -q.constant

def neg (q : Quadratic α n) : Quadratic α n :=
  q.negCoefficients.quadratic

def subCoefficients (q : Quadratic α n) (a : α) : Coefficients α n :=
  ⟨q.hessian, q.linear, q.constant - a⟩

def subConst (q : Quadratic α n) (a : α) : Quadratic α n :=
  (q.subCoefficients a).quadratic

def coordinate (i : Fin n) (a : α) : Quadratic α n :=
  ofMatrix (zeroMatrix α n) (axis i a) 0

def embedCoefficients {m : Nat} (q : Quadratic α n) (places : Vector (Fin m) n) :
    Coefficients α m where
  matrix := Vector.ofFn fun r ↦ Vector.ofFn fun s ↦
    match last? places r, last? places s with
    | some i, some j => q.hessian[i][j]
    | _, _ => 0
  linear := Vector.ofFn fun r ↦ (last? places r).elim 0 fun i ↦ q.linear[i]
  constant := q.constant
where
  last? (places : Vector (Fin m) n) (r : Fin m) : Option (Fin n) :=
    (List.finRange n).reverse.find? fun i ↦ places[i] == r

/-- The function of `m` variables that reads its `n` arguments at the given places. Of two arguments
at one place the later row, and in it the later column, is kept. -/
def embed {m : Nat} (q : Quadratic α n) (places : Vector (Fin m) n) : Quadratic α m :=
  (q.embedCoefficients places).quadratic

/-! ## Interval evaluation -/

/-- The ranges over the sides of the terms that row `i` contributes on and to the right of the
diagonal. -/
def rowRanges (q : Quadratic α n) (sides : Vector (Interval α) n) (i : Fin n) : List (Interval α) :=
  (if q.hessian[i][i] == 0 then [] else [sides[i].square.scale (0.5 * q.hessian[i][i])]) ++
  (if q.linear[i] == 0 then [] else [sides[i].scale q.linear[i]]) ++
  ((List.finRange n).filter fun j ↦ decide (i < j) && q.hessian[i][j] != 0).map fun j ↦
    (sides[i].mul sides[j]).scale q.hessian[i][j]

/-- The natural interval extension: every term is replaced by its range. -/
def interval (q : Quadratic α n) (sides : Vector (Interval α) n) : Interval α :=
  Interval.sum (.singleton q.constant) ((List.finRange n).flatMap (q.rowRanges sides))

end Quadratic

end GlobalQcqp
